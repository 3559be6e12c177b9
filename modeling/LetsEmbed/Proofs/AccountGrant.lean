import LetsEmbed.Proofs.AccountLedger

/-! The free points of a new account. They are written over the stored balance,
not added to it, so they are exact only on an account that holds nothing. -/

namespace LetsEmbed.Account
open Config Rust Systems

def owed (s : Storage) : Int := if s.init.isNone then freeGrantPoints else 0

def spent (e : Event) : Int :=
  match e.input.op with
  | .charge req =>
    if e.output.charged = true ∧ chargeSource (ensureInit e.before) e.input.now req.kind = .balance then
      viewCost req.kind
    else 0
  | _ => 0

/-- Nothing but the free points was added to the balance. -/
def Granted (e : Event) : Prop := e.after.getBalance = e.before.getBalance + owed e.before - spent e

def Undisturbed (s : Storage) : Prop := s.init.isSome = true ∨ s.getBalance = 0

theorem ensureInit_exact (s : Storage) :
    (ensureInit s).getBalance = s.getBalance + owed s ↔ Undisturbed s := by
  rw [ensureInit_getBalance, owed, Undisturbed]
  cases s.init with
  | none => simp
  | some => simp

theorem charge_spent (s : Storage) (now : Nat) (req : ChargeReq) (fits : InI64 s.getBalance) :
    (charge s now req).2.getBalance = (ensureInit s).getBalance - spent (account.event s ⟨now, .charge req⟩) := by
  have touched := ensureInit_fits fits
  have outcome := charge_outcome s now req
  change _ = _ - if (charge s now req).1.charged = true ∧ chargeSource (ensureInit s) now req.kind = .balance then _
    else _
  generalize charge s now req = result at outcome ⊢
  cases outcome with
  | banned | deduped | refused => simp [Reply.charged, repeatResp, Window.answer, Window.resp]
  | recorded _ _ draws =>
    cases draws with
    | unlimited source | quota source => simp [source]
    | paid source =>
      have exact := i64_of_fits (paid_fits touched (chargeSource_balance source))
      simp [exact, source, Reply.charged, Window.answer, Window.resp]

theorem granted_iff {s : Storage} {i : Input} (fits : InI64 s.getBalance) (touches : i.op.touches = true) :
    Granted (account.event s i) ↔ Undisturbed s := by
  rw [← ensureInit_exact]
  obtain ⟨now, op⟩ := i
  cases op with
  | init address =>
    change (ensureInit s).getBalance = s.getBalance + owed s - 0 ↔ _
    rw [Int.sub_zero]
  | charge req =>
    have left := charge_spent s now req fits
    change (charge s now req).2.getBalance = s.getBalance + owed s - spent (account.event s ⟨now, .charge req⟩) ↔ _
    omega
  | credit | status | subscribe | unsubscribe | ban | alarm => cases touches

theorem init_commutes_iff (s : Storage) (now : Nat) (address : String) {req : CreditReq}
    (fits : InI64 req.points) :
    (init (credit s req).2 now address).2.getBalance = (credit (init s now address).2 req).2.getBalance ↔
      s.init.isSome = true ∨ (s.credit req.key).isSome = true ∨ req.points = 0 := by
  have applied (t : Storage) : (credit t req).2.getBalance =
      if (t.credit req.key).isSome then t.getBalance else max (i64 (t.getBalance + req.points)) 0 := by
    rw [credit]
    dsimp only
    split <;> rfl
  have touched : (credit s req).2.init = s.init := by
    rw [credit]
    dsimp only
    split <;> rfl
  have initial : (init (credit s req).2 now address).2.getBalance =
      if s.init.isNone then freeGrantPoints else (credit s req).2.getBalance := by
    rw [← touched]
    exact ensureInit_getBalance _
  have later : (credit (init s now address).2 req).2.getBalance =
      if (s.credit req.key).isSome then (ensureInit s).getBalance
      else max (i64 ((ensureInit s).getBalance + req.points)) 0 := by
    rw [applied]
    have same : (init s now address).2.credit = s.credit := by
      change (ensureInit s).credit = s.credit
      rw [ensureInit]
      split <;> rfl
    rw [same]
    rfl
  rw [initial, later, ensureInit_getBalance]
  cases s.init with
  | some => simp [applied]
  | none =>
    cases s.credit req.key with
    | some => simp
    | none =>
      simp only [Option.isNone_none, if_true, Option.isSome_none, Bool.false_eq_true, if_false, false_or]
      by_cases exact : InI64 (freeGrantPoints + req.points)
      · rw [i64_of_fits exact]
        rw [freeGrantPoints]
        omega
      · unfold InI64 freeGrantPoints at *
        rw [i64_of_overflow (by omega) (by unfold i64Max at *; omega)]
        unfold i64Max at *
        omega

def Uncredited : Guard := fun _ s i =>
  match i.op with
  | .credit req => s.init.isSome = true ∨ req.points ≤ 0 ∧ InI64 req.points
  | _ => True

theorem blank_step {past : List Event} {s : Storage} {i : Input} (allowed : Uncredited past s i)
    (new : s.init.isSome = false) (blank : s.getBalance = 0 ∧ s.plan = none) (untouched : i.op.touches = false) :
    (step s i).2.getBalance = 0 ∧ (step s i).2.plan = none := by
  obtain ⟨now, op⟩ := i
  obtain ⟨empty, planless⟩ := blank
  cases op with
  | init | charge => cases untouched
  | credit req =>
    simp only [step, credit]
    split
    · exact ⟨empty, planless⟩
    · rcases allowed with init | ⟨nonpos, fits⟩
      · simp [new] at init
      · refine ⟨?_, planless⟩
        change max (i64 (s.getBalance + req.points)) 0 = 0
        rw [empty, Int.zero_add, i64_of_fits fits]
        omega
  | status | ban => exact ⟨empty, planless⟩
  | subscribe planId =>
    have outcome := subscribe_outcome s now planId
    change (subscribe s now planId).2.getBalance = 0 ∧ (subscribe s now planId).2.plan = none
    generalize subscribe s now planId = result at outcome ⊢
    cases outcome with
    | unknown | poor => exact ⟨empty, planless⟩
    | bought found enough =>
      have price := (plan_sound found).price.1
      have inactive : planActive s now = false := by simp [planActive, planless]
      rw [unusedRefund_inactive inactive, empty] at enough
      omega
  | unsubscribe disarmed =>
    have inactive : planActive s now = false := by simp [planActive, planless]
    refine ⟨?_, (unsubscribe_frame s now disarmed).1⟩
    change (unsubscribe s now disarmed).2.getBalance = 0
    rw [unsubscribe_getBalance, inactive]
    exact empty
  | alarm =>
    have outcome := alarm_outcome s now
    change (alarm s now).2.getBalance = 0 ∧ (alarm s now).2.plan = none
    generalize alarm s now = result at outcome ⊢
    cases outcome with
    | kept => exact ⟨empty, planless⟩
    | lapsed => exact ⟨empty, rfl⟩

theorem run_undisturbed {past : List Event} {s : Storage} (run : account.Run Uncredited {} past s) :
    Undisturbed s := by
  have blank : s.init.isSome = true ∨ s.getBalance = 0 ∧ s.plan = none := by
    apply run.invariant (fun _ s => s.init.isSome = true ∨ s.getBalance = 0 ∧ s.plan = none) (.inr ⟨rfl, rfl⟩)
    intro past s i _ allowed held
    cases touches : i.op.touches with
    | true => exact .inl (touches_init touches)
    | false =>
      cases new : s.init.isSome with
      | true => exact .inl (init_step new)
      | false =>
        rcases held with init | blank
        · simp [new] at init
        · exact .inr (blank_step allowed new blank touches)
  exact blank.imp_right And.left

/-- Over whole runs the free points are exact precisely where they meet an
empty balance, and setting up commutes with no credit that adds points. -/
theorem grant_exact_iff {guard : Guard} {past : List Event} {s : Storage} (run : account.Run guard {} past s) :
    (∀ e ∈ past, e.input.op.touches = true → (Granted e ↔ Undisturbed e.before)) ∧
    (∀ now address req, 0 ≤ req.points → InI64 req.points →
      ((init (credit s req).2 now address).2.getBalance = (credit (init s now address).2 req).2.getBalance ↔
        s.init.isSome = true ∨ (s.credit req.key).isSome = true ∨ req.points = 0)) ∧
    (account.Run Uncredited {} past s → ∀ e ∈ past, e.input.op.touches = true → Granted e) := by
  have exact (e : Event) (member : e ∈ past) (touches : e.input.op.touches = true) :
      Granted e ↔ Undisturbed e.before := by
    obtain ⟨late, early, whole⟩ := List.append_of_mem member
    subst whole
    rw [run.event_of_mem member]
    exact granted_iff (run_fits run.cut.1) touches
  refine ⟨exact, fun now address req _ fits => init_commutes_iff s now address fits, ?_⟩
  intro quiet e member touches
  refine (exact e member touches).mpr ?_
  obtain ⟨late, early, whole⟩ := List.append_of_mem member
  subst whole
  exact run_undisturbed quiet.cut.1

/-- Five hundred points credited before the account is set up are lost. -/
theorem grant_overwrites :
    let req : CreditReq := ⟨500, "tx", ""⟩
    let s := (account.play ([], {}) [⟨0, .credit req⟩]).2
    ¬ Granted (account.event s ⟨0, .init "0xa"⟩) ∧
      (init (credit {} req).2 0 "0xa").2.getBalance = 3_000 ∧ (credit (init {} 0 "0xa").2 req).2.getBalance = 3_500 := by
  intro req s
  refine ⟨fun granted => ?_, rfl, rfl⟩
  have after : (account.event s ⟨0, .init "0xa"⟩).after.getBalance = 3_000 := rfl
  have before : (account.event s ⟨0, .init "0xa"⟩).before.getBalance + owed s - 0 = 3_500 := rfl
  exact absurd (after.symm.trans (granted.trans before)) (by decide)

theorem grant_exact_iff_ordinary :
    let run := account.play ([], {}) [⟨0, .init "0xa"⟩, ⟨0, .credit ⟨500, "tx", ""⟩⟩, ⟨0, .charge ⟨"/images/a", .image⟩⟩]
    ∀ e ∈ run.1, e.input.op.touches = true → Granted e := by
  intro run
  have played : account.Run Uncredited {} run.1 run.2 :=
    Machine.Run.start.play _ ⟨trivial, .inl rfl, trivial, trivial⟩
  exact (grant_exact_iff played).2.2 played

end LetsEmbed.Account
