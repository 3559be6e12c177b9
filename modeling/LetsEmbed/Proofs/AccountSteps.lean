import LetsEmbed.Account

/-! What one operation of the account object can do, stated once. Every later
invariant splits on these outcomes and never unfolds the operations again. -/

namespace LetsEmbed.Account
open Config Rust

section Touch
variable (s : Storage) (now : Nat)

@[simp] theorem ensureInit_plan : (ensureInit s).plan = s.plan := by unfold ensureInit; split <;> rfl
@[simp] theorem ensureInit_periodEnd : (ensureInit s).periodEnd = s.periodEnd := by
  unfold ensureInit; split <;> rfl
@[simp] theorem ensureInit_winStart : (ensureInit s).winStart = s.winStart := by unfold ensureInit; split <;> rfl
@[simp] theorem ensureInit_winViews : (ensureInit s).winViews = s.winViews := by unfold ensureInit; split <;> rfl
@[simp] theorem ensureInit_winSearch : (ensureInit s).winSearch = s.winSearch := by
  unfold ensureInit; split <;> rfl
@[simp] theorem ensureInit_totalViews : (ensureInit s).totalViews = s.totalViews := by
  unfold ensureInit; split <;> rfl
@[simp] theorem ensureInit_seen : (ensureInit s).seen = s.seen := by unfold ensureInit; split <;> rfl
@[simp] theorem ensureInit_isBanned : (ensureInit s).isBanned = s.isBanned := by
  unfold ensureInit; split <;> rfl
@[simp] theorem ensureInit_getPeriodEnd : (ensureInit s).getPeriodEnd = s.getPeriodEnd := by
  simp [Storage.getPeriodEnd]

theorem ensureInit_init : (ensureInit s).init.isSome = true := by
  rw [ensureInit]
  split
  · rfl
  next touched => exact Option.isSome_iff_ne_none.mpr (by simpa using touched)

theorem ensureInit_of_init {s : Storage} (touched : s.init.isSome = true) : ensureInit s = s :=
  if_neg (by cases seen : s.init <;> simp_all)

theorem ensureInit_getBalance :
    (ensureInit s).getBalance = if s.init.isNone then freeGrantPoints else s.getBalance := by
  rw [ensureInit]
  split <;> rfl

theorem planActive_congr {s t : Storage} (plan : t.plan = s.plan) (ends : t.periodEnd = s.periodEnd) :
    planActive t now = planActive s now := by
  unfold planActive Storage.getPeriodEnd
  rw [plan, ends]

@[simp] theorem planActive_ensureInit : planActive (ensureInit s) now = planActive s now :=
  planActive_congr now (ensureInit_plan s) (ensureInit_periodEnd s)

theorem planActive_iff : planActive s now = true ↔ s.plan.isSome = true ∧ now < s.getPeriodEnd := by
  simp [planActive]

theorem unusedRefund_congr {s t : Storage} (plan : t.plan = s.plan) (ends : t.periodEnd = s.periodEnd) :
    unusedRefund t now = unusedRefund s now := by
  simp only [unusedRefund, planActive_congr now plan ends, plan, Storage.getPeriodEnd, ends]

theorem viewCost_pos (kind : ChargeKind) : 0 < viewCost kind := by cases kind <;> decide

end Touch

def chargePlan (s : Storage) (now : Nat) : Option Plan :=
  if planActive s now then s.plan.bind Config.plan else none

def seenRecently (s : Storage) (now : Nat) (path : String) : Bool :=
  isRecentView path now [(s.seen (now / 86_400)).getD fun _ => none,
    (s.seen (u64Sub (now / 86_400) 1)).getD fun _ => none]

def chargeSource (s : Storage) (now : Nat) (kind : ChargeKind) : ChargeSource :=
  let w := rollWindow s (planActive s now) now
  decideCharge (chargePlan s now) (planActive s now) kind w.views w.search s.getBalance (viewCost kind)

def repeatResp (s : Storage) (now : Nat) (kind : ChargeKind) : ChargeResp :=
  let fields := windowFields s (planActive s now) (chargePlan s now) now
  ⟨false, viewCost kind, s.getBalance, fields.viewsRemaining, fields.searchesRemaining, fields.windowReset⟩

def Window.answer (w : Window) (s : Storage) (now : Nat) (kind : ChargeKind) (charged : Bool) (balance : Int) :
    ChargeResp :=
  w.resp (chargePlan s now) (planActive s now) charged (viewCost kind) balance now

/-- Storage with a charge's window copies written back when they changed. -/
def Storage.withWindow (s : Storage) (w : Window) : Storage :=
  if w.dirty then
    { s with winStart := w.start, winViews := some w.views, winSearch := some w.search }
  else s

section Draws
variable {plan : Option Plan} {active : Bool} {kind : ChargeKind} {winViews winSearch balance cost : Int}

theorem payAsYouGo_cases : payAsYouGo balance cost = .balance ∧ cost ≤ balance ∨
    payAsYouGo balance cost = .refuse ∧ balance < cost := by
  rw [payAsYouGo]
  split
  next enough => exact .inl ⟨rfl, enough⟩
  next short => exact .inr ⟨rfl, Int.not_le.mp short⟩

def Fits (p : Plan) (kind : ChargeKind) (winViews winSearch : Int) : Prop :=
  match kind with
  | .search => winSearch < p.searchesPerWindow
  | .image | .video | .embedSearch => ∃ limit, p.viewsPerWindow = some limit ∧ winViews + viewCost kind ≤ limit

theorem fits_media {p : Plan} (media : kind ≠ .search) :
    Fits p kind winViews winSearch ↔ ∃ limit, p.viewsPerWindow = some limit ∧ winViews + viewCost kind ≤ limit := by
  cases kind <;> first | exact Iff.rfl | exact absurd rfl media

theorem decideCharge_media {p : Plan} (media : kind ≠ .search) :
    decideCharge (some p) true kind winViews winSearch balance cost =
      match p.viewsPerWindow with
      | none => .freeUnlimited
      | some limit => if winViews + cost ≤ limit then .window else payAsYouGo balance cost := by
  cases kind <;> first | rfl | exact absurd rfl media

/-- Everything `decide_charge` can answer, with the reason for it. -/
theorem decideCharge_cases :
    let source := decideCharge plan active kind winViews winSearch balance (viewCost kind)
    (source = .freeUnlimited ∧ active = true ∧ kind ≠ .search ∧
      ∃ p, plan = some p ∧ p.viewsPerWindow = none) ∨
    (source = .window ∧ active = true ∧ ∃ p, plan = some p ∧ Fits p kind winViews winSearch) ∨
    ((active = true → ∀ p, plan = some p → ¬ Fits p kind winViews winSearch ∧
        (kind ≠ .search → p.viewsPerWindow ≠ none)) ∧
      (source = .balance ∧ viewCost kind ≤ balance ∨ source = .refuse ∧ balance < viewCost kind)) := by
  cases active with
  | false => exact .inr (.inr ⟨by simp, payAsYouGo_cases⟩)
  | true =>
    cases plan with
    | none => exact .inr (.inr ⟨by simp, payAsYouGo_cases⟩)
    | some p =>
      by_cases media : kind = .search
      · subst media
        by_cases fits : winSearch < p.searchesPerWindow
        · exact .inr (.inl ⟨if_pos fits, rfl, p, rfl, fits⟩)
        · refine .inr (.inr ⟨fun _ q same => ?_, ?_⟩)
          · cases same
            exact ⟨fits, fun other => absurd rfl other⟩
          · simpa only [decideCharge, if_neg fits] using payAsYouGo_cases
      · rw [decideCharge_media media]
        cases views : p.viewsPerWindow with
        | none => exact .inl ⟨rfl, rfl, media, p, rfl, views⟩
        | some limit =>
          by_cases fits : winViews + viewCost kind ≤ limit
          · exact .inr (.inl ⟨if_pos fits, rfl, p, rfl, (fits_media media).mpr ⟨limit, views, fits⟩⟩)
          · refine .inr (.inr ⟨fun _ q same => ?_, ?_⟩)
            · cases same
              simp [fits_media media, views, fits]
            · simpa only [if_neg fits] using payAsYouGo_cases

end Draws

section Windows
variable (s : Storage) (now : Nat)

theorem shouldRoll_false {winStart : Option Nat} (kept : shouldRoll winStart now = false) :
    ∃ start, winStart = some start ∧ now < start + windowSecs := by
  cases winStart with
  | none => cases kept
  | some start => exact ⟨start, rfl, by simpa [shouldRoll] using kept⟩

theorem shouldRoll_some {start : Nat} : shouldRoll (some start) now = true ↔ start + windowSecs ≤ now := by
  simp [shouldRoll]

/-- An active plan's charge always works on an open window. -/
theorem rollWindow_open : ∃ start, (rollWindow s true now).start = some start ∧ now < start + windowSecs := by
  rw [rollWindow]
  cases rolled : shouldRoll s.winStart now with
  | true => exact ⟨now, rfl, by simp [windowSecs]⟩
  | false => exact shouldRoll_false now rolled

theorem rollWindow_dirty {active : Bool} (dirty : (rollWindow s active now).dirty = true) :
    active = true ∧ shouldRoll s.winStart now = true ∧ rollWindow s active now = ⟨some now, 0, 0, true⟩ := by
  rw [rollWindow] at dirty ⊢
  split at dirty
  next rolled =>
    rw [if_pos rolled]
    simpa using rolled
  next => cases dirty

theorem rollWindow_clean {active : Bool} (clean : (rollWindow s active now).dirty = false) :
    rollWindow s active now = ⟨s.winStart, s.winViews.getD 0, s.winSearch.getD 0, false⟩ := by
  rw [rollWindow] at clean ⊢
  split at clean
  next => cases clean
  next kept => exact if_neg kept

@[simp] theorem draw_dirty (w : Window) (kind : ChargeKind) (cost : Int) : (w.draw kind cost).dirty = true := by
  cases kind <;> rfl

@[simp] theorem draw_start (w : Window) (kind : ChargeKind) (cost : Int) :
    (w.draw kind cost).start = w.start := by cases kind <;> rfl

end Windows

/-- How a recorded charge is satisfied: the window it writes back and the
balance it leaves. -/
inductive Draws (s : Storage) (now : Nat) (kind : ChargeKind) : Window → Int → Prop where
  | unlimited (source : chargeSource s now kind = .freeUnlimited) :
      Draws s now kind (rollWindow s (planActive s now) now) s.getBalance
  | quota (source : chargeSource s now kind = .window) :
      Draws s now kind ((rollWindow s (planActive s now) now).draw kind (viewCost kind)) s.getBalance
  | paid (source : chargeSource s now kind = .balance) :
      Draws s now kind (rollWindow s (planActive s now) now) (i64 (s.getBalance - viewCost kind))

theorem chargeSource_cases (s : Storage) (now : Nat) (kind : ChargeKind) :
    let source := chargeSource s now kind
    let w := rollWindow s (planActive s now) now
    (source = .freeUnlimited ∧ planActive s now = true ∧ kind ≠ .search ∧
      ∃ p, chargePlan s now = some p ∧ p.viewsPerWindow = none) ∨
    (source = .window ∧ planActive s now = true ∧ ∃ p, chargePlan s now = some p ∧ Fits p kind w.views w.search) ∨
    ((planActive s now = true → ∀ p, chargePlan s now = some p → ¬ Fits p kind w.views w.search ∧
        (kind ≠ .search → p.viewsPerWindow ≠ none)) ∧
      (source = .balance ∧ viewCost kind ≤ s.getBalance ∨ source = .refuse ∧ s.getBalance < viewCost kind)) :=
  decideCharge_cases

theorem chargeSource_active {s : Storage} {now : Nat} {kind : ChargeKind}
    (source : chargeSource s now kind = .window) : planActive s now = true := by
  rcases chargeSource_cases s now kind with h | h | ⟨_, h⟩ <;> simp_all

theorem chargeSource_window {s : Storage} {now : Nat} {kind : ChargeKind}
    (source : chargeSource s now kind = .window) : ∃ p, chargePlan s now = some p ∧
      Fits p kind (rollWindow s (planActive s now) now).views (rollWindow s (planActive s now) now).search := by
  rcases chargeSource_cases s now kind with ⟨other, _⟩ | ⟨_, _, fits⟩ | ⟨_, ⟨other, _⟩ | ⟨other, _⟩⟩
  · simp [other] at source
  · exact fits
  all_goals simp [other] at source

theorem chargeSource_balance {s : Storage} {now : Nat} {kind : ChargeKind}
    (source : chargeSource s now kind = .balance) : viewCost kind ≤ s.getBalance := by
  rcases chargeSource_cases s now kind with h | h | ⟨_, h⟩ <;> simp_all

/-- `expect("rolled/active window has a start")` cannot fire: a window is only
stored after a roll or a draw, and both leave it with a start. -/
theorem Draws.started {s : Storage} {now : Nat} {kind : ChargeKind} {w : Window} {balance : Int}
    (draws : Draws s now kind w balance) (dirty : w.dirty = true) : w.start.isSome = true := by
  cases draws with
  | unlimited | paid => rw [(rollWindow_dirty s now dirty).2.2]; rfl
  | quota source =>
    obtain ⟨start, opened, _⟩ := rollWindow_open s now
    rw [draw_start, chargeSource_active source, opened]
    rfl

inductive ChargeOutcome (s : Storage) (now : Nat) (req : ChargeReq) : Reply × Storage → Prop where
  | banned (suspended : s.isBanned = true) : ChargeOutcome s now req (.error 403 "banned", s)
  | deduped (served : s.isBanned = false) (recent : seenRecently s now req.path = true) :
      ChargeOutcome s now req (.charge 200 (repeatResp s now req.kind), s)
  | refused (served : s.isBanned = false) (fresh : seenRecently s now req.path = false)
      (source : chargeSource s now req.kind = .refuse) :
      ChargeOutcome s now req
        (.charge 402 ((rollWindow s (planActive s now) now).answer s now req.kind false s.getBalance), s)
  | recorded {w : Window} {balance : Int} (served : s.isBanned = false)
      (fresh : seenRecently s now req.path = false) (draws : Draws s now req.kind w balance) :
      ChargeOutcome s now req
        (.charge 200 (w.answer s now req.kind true balance), (recordView s now req.path balance).withWindow w)

theorem recordCharge_eq {s : Storage} {now : Nat} {req : ChargeReq} {w : Window} {balance : Int}
    (draws : Draws s now req.kind w balance) :
    recordCharge s now req (chargePlan s now) (planActive s now) w balance =
      (.charge 200 (w.answer s now req.kind true balance), (recordView s now req.path balance).withWindow w) := by
  rw [recordCharge, Storage.withWindow]
  cases dirty : w.dirty with
  | false => rfl
  | true =>
    obtain ⟨start, started⟩ := Option.isSome_iff_exists.mp (draws.started dirty)
    simp only [started, if_true]
    rfl

def chargeTouched (s : Storage) (now : Nat) (req : ChargeReq) : Reply × Storage :=
  let w := rollWindow s (planActive s now) now
  if s.isBanned then (.error 403 "banned", s)
  else if seenRecently s now req.path then (.charge 200 (repeatResp s now req.kind), s)
  else if chargeSource s now req.kind = .refuse then
    (.charge 402 (w.answer s now req.kind false s.getBalance), s)
  else
    match chargeSource s now req.kind with
    | .freeUnlimited => recordCharge s now req (chargePlan s now) (planActive s now) w s.getBalance
    | .window =>
      recordCharge s now req (chargePlan s now) (planActive s now) (w.draw req.kind (viewCost req.kind)) s.getBalance
    | .balance =>
      recordCharge s now req (chargePlan s now) (planActive s now) w (i64 (s.getBalance - viewCost req.kind))
    | .refuse => (.panic "handled above", s)

theorem charge_eq (s : Storage) (now : Nat) (req : ChargeReq) :
    charge s now req = chargeTouched (ensureInit s) now req := rfl

theorem charge_outcome (s : Storage) (now : Nat) (req : ChargeReq) :
    ChargeOutcome (ensureInit s) now req (charge s now req) := by
  rw [charge_eq]
  generalize ensureInit s = s
  rw [chargeTouched]
  cases suspended : s.isBanned with
  | true => exact .banned suspended
  | false =>
    cases recent : seenRecently s now req.path with
    | true => exact .deduped suspended recent
    | false =>
      cases source : chargeSource s now req.kind with
      | refuse => exact .refused suspended recent source
      | freeUnlimited =>
        simp only [recordCharge_eq (.unlimited source)]
        exact .recorded suspended recent (.unlimited source)
      | window =>
        simp only [recordCharge_eq (.quota source)]
        exact .recorded suspended recent (.quota source)
      | balance =>
        simp only [recordCharge_eq (.paid source)]
        exact .recorded suspended recent (.paid source)

section Writes
variable (s : Storage) (now : Nat) (path : String) (balance : Int) (w : Window)

@[simp] theorem recordView_init : (recordView s now path balance).init = s.init := rfl
@[simp] theorem recordView_plan : (recordView s now path balance).plan = s.plan := rfl
@[simp] theorem recordView_periodEnd : (recordView s now path balance).periodEnd = s.periodEnd := rfl
@[simp] theorem recordView_winStart : (recordView s now path balance).winStart = s.winStart := rfl
@[simp] theorem recordView_winViews : (recordView s now path balance).winViews = s.winViews := rfl
@[simp] theorem recordView_winSearch : (recordView s now path balance).winSearch = s.winSearch := rfl
@[simp] theorem recordView_getBalance : (recordView s now path balance).getBalance = balance := rfl
@[simp] theorem recordView_totalViews :
    (recordView s now path balance).totalViews = some (s.totalViews.getD 0 + 1) := rfl

@[simp] theorem withWindow_init : (s.withWindow w).init = s.init := by unfold Storage.withWindow; split <;> rfl
@[simp] theorem withWindow_plan : (s.withWindow w).plan = s.plan := by unfold Storage.withWindow; split <;> rfl
@[simp] theorem withWindow_periodEnd : (s.withWindow w).periodEnd = s.periodEnd := by
  unfold Storage.withWindow; split <;> rfl
@[simp] theorem withWindow_seen : (s.withWindow w).seen = s.seen := by unfold Storage.withWindow; split <;> rfl
@[simp] theorem withWindow_totalViews : (s.withWindow w).totalViews = s.totalViews := by
  unfold Storage.withWindow; split <;> rfl
@[simp] theorem withWindow_getBalance : (s.withWindow w).getBalance = s.getBalance := by
  unfold Storage.withWindow; split <;> rfl

end Writes

def subscribed (s : Storage) (now : Nat) (target : Plan) : Storage :=
  { s with
    balance := some (max (i64 (s.getBalance - (target.pricePoints - unusedRefund s now))) 0)
    plan := some target.id
    periodEnd := some (now + target.periodSecs)
    winStart := some now
    winViews := some 0
    winSearch := some 0
    alarm := some (now + (now + target.periodSecs - now)) }

inductive SubscribeOutcome (s : Storage) (now : Nat) (planId : String) : Reply × Storage → Prop where
  | unknown (missing : Config.plan planId = none) :
      SubscribeOutcome s now planId (.error 400 "unknown plan", s)
  | poor {target : Plan} (found : Config.plan planId = some target)
      (short : s.getBalance < target.pricePoints - unusedRefund s now) :
      SubscribeOutcome s now planId (.error 402 "insufficient balance", s)
  | bought {target : Plan} (found : Config.plan planId = some target)
      (enough : target.pricePoints - unusedRefund s now ≤ max s.getBalance 0) :
      SubscribeOutcome s now planId
        (.status (statusResp (subscribed s now target) now), subscribed s now target)

theorem subscribe_outcome (s : Storage) (now : Nat) (planId : String) :
    SubscribeOutcome s now planId (subscribe s now planId) := by
  rw [subscribe]
  split
  next missing => exact .unknown missing
  next target found =>
    dsimp only
    split
    next refused => exact .poor found refused.2
    next affordable => exact .bought found (by omega)

section Unsubscribe
variable (s : Storage) (now : Nat) (disarmed : Bool)

theorem unsubscribe_frame :
    let after := (unsubscribe s now disarmed).2
    after.plan = none ∧ after.init = s.init ∧ after.seen = s.seen ∧ after.totalViews = s.totalViews ∧
      after.isBanned = s.isBanned := by
  rw [unsubscribe]
  dsimp only
  split <;> exact ⟨rfl, rfl, rfl, rfl, rfl⟩

theorem unsubscribe_getBalance : (unsubscribe s now disarmed).2.getBalance =
    if planActive s now then i64 (s.getBalance + unusedRefund s now) else s.getBalance := by
  rw [unsubscribe]
  dsimp only
  split <;> rfl

end Unsubscribe

/-- What the alarm does: nothing but re-arming, or lapsing a plan that is over. -/
inductive AlarmOutcome (s : Storage) (now : Nat) : Reply × Storage → Prop where
  | kept (pending : Option Nat) : AlarmOutcome s now (.ok, { s with alarm := pending })
  | lapsed (ended : s.getPeriodEnd ≤ now) :
      AlarmOutcome s now
        (.ok, { s with alarm := none, plan := none, winStart := none, winViews := none, winSearch := none })

theorem alarm_outcome (s : Storage) (now : Nat) : AlarmOutcome s now (alarm s now) := by
  rw [alarm]
  dsimp only
  split
  · exact .kept none
  · split
    · exact .kept _
    next ended => exact .lapsed (Nat.not_lt.mp ended)

end LetsEmbed.Account
