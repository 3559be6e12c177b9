import LetsEmbed.Proofs.AccountSteps

/-! What holds of the account object in every state its operations reach. Each
part is kept by single steps under the weakest assumption it needs: the stored
plan is always one on sale, its window never exceeds the quota while the clock
does not run backwards, and no balance turns negative without an overflow. -/

namespace LetsEmbed.Account
open Config Rust Systems

/-- Clock readings never decrease along a run. -/
def Ordered : Guard := fun past _ i => ∀ e ∈ past, e.input.now ≤ i.now

instance (past : List Event) (s : Storage) (i : Input) : Decidable (Ordered past s i) :=
  inferInstanceAs (Decidable (∀ e ∈ past, e.input.now ≤ i.now))

/-- The operation does not overflow the balance. A charge never does. -/
def Exact (s : Storage) (i : Input) : Prop :=
  match i.op with
  | .credit req => s.credit req.key = none → InI64 (s.getBalance + req.points)
  | .subscribe planId => ∀ target ∈ Config.plan planId,
      target.pricePoints - unusedRefund s i.now ≤ max s.getBalance 0 →
      InI64 (s.getBalance - (target.pricePoints - unusedRefund s i.now))
  | .unsubscribe _ => planActive s i.now = true → InI64 (s.getBalance + unusedRefund s i.now)
  | _ => True

instance (s : Storage) : (i : Input) → Decidable (Exact s i)
  | ⟨_, .credit _⟩ => inferInstanceAs (Decidable (_ → _))
  | ⟨_, .subscribe planId⟩ => inferInstanceAs (Decidable (∀ target ∈ Config.plan planId, _ → InI64 _))
  | ⟨_, .unsubscribe _⟩ => inferInstanceAs (Decidable (_ → _))
  | ⟨_, .init _⟩ | ⟨_, .charge _⟩ | ⟨_, .status⟩ | ⟨_, .ban _⟩ | ⟨_, .alarm⟩ => .isTrue trivial

def PlanKnown (s : Storage) : Prop := ∀ id, s.plan = some id → ∃ p, Config.plan id = some p

theorem PlanKnown.of_plan {s t : Storage} (known : PlanKnown s) (same : t.plan = s.plan) : PlanKnown t := by
  intro id stored
  exact known id (same ▸ stored)

theorem PlanKnown.of_none {s : Storage} (none : s.plan = none) : PlanKnown s := by
  intro id stored
  rw [none] at stored
  cases stored

theorem PlanKnown.active {s : Storage} {now : Nat} (known : PlanKnown s) (active : planActive s now = true) :
    ∃ p, chargePlan s now = some p ∧ s.plan.bind Config.plan = some p ∧ p.Sound := by
  obtain ⟨id, stored⟩ := Option.isSome_iff_exists.mp ((planActive_iff s now).mp active).1
  obtain ⟨p, found⟩ := known id stored
  have consulted : s.plan.bind Config.plan = some p := by rw [stored]; exact found
  exact ⟨p, by rw [chargePlan, if_pos active, consulted], consulted, plan_sound found⟩

theorem planKnown_step (s : Storage) (i : Input) (known : PlanKnown s) : PlanKnown (step s i).2 := by
  obtain ⟨now, op⟩ := i
  cases op with
  | init address => exact known.of_plan (ensureInit_plan s)
  | charge req =>
    have touched : PlanKnown (ensureInit s) := known.of_plan (ensureInit_plan s)
    have outcome := charge_outcome s now req
    change PlanKnown (charge s now req).2
    generalize charge s now req = result at outcome ⊢
    cases outcome with
    | banned | deduped | refused => exact touched
    | recorded => exact touched.of_plan (by simp)
  | credit req =>
    simp only [step, credit]
    split <;> exact known
  | status => exact known
  | subscribe planId =>
    have outcome := subscribe_outcome s now planId
    change PlanKnown (subscribe s now planId).2
    generalize subscribe s now planId = result at outcome ⊢
    cases outcome with
    | unknown | poor => exact known
    | @bought target found =>
      intro id stored
      cases stored
      exact ⟨target, by rw [plan_id found]; exact found⟩
  | unsubscribe disarmed => exact .of_none (unsubscribe_frame s now disarmed).1
  | ban banned => exact known
  | alarm =>
    have outcome := alarm_outcome s now
    change PlanKnown (alarm s now).2
    generalize alarm s now = result at outcome ⊢
    cases outcome with
    | kept => exact known
    | lapsed => exact .of_none rfl

theorem run_planKnown {guard : Guard} {past : List Event} {s : Storage} (run : account.Run guard {} past s) :
    PlanKnown s :=
  run.invariant (fun _ s => PlanKnown s) (.of_none rfl)
    fun _ _ known => planKnown_step _ _ known

/-- A stored plan's window: opened in the past, its counters within the quota,
and its period no longer than one from now. -/
structure InForce (p : Plan) (s : Storage) (now : Nat) : Prop where
  started : ∃ start ≤ now, s.winStart = some start
  search : 0 ≤ s.winSearch.getD 0 ∧ s.winSearch.getD 0 ≤ p.searchesPerWindow
  views : 0 ≤ s.winViews.getD 0 ∧ ∀ limit, p.viewsPerWindow = some limit → s.winViews.getD 0 ≤ limit
  ends : s.getPeriodEnd ≤ now + p.periodSecs

def PlanSound (s : Storage) (now : Nat) : Prop :=
  ∀ id, s.plan = some id → ∃ p, Config.plan id = some p ∧ InForce p s now

theorem InForce.later {p : Plan} {s : Storage} {now later : Nat} (sound : InForce p s now) (le : now ≤ later) :
    InForce p s later := by
  obtain ⟨start, past, opened⟩ := sound.started
  exact ⟨⟨start, Nat.le_trans past le, opened⟩, sound.search, sound.views, by have := sound.ends; omega⟩

theorem PlanSound.later {s : Storage} {now later : Nat} (sound : PlanSound s now) (le : now ≤ later) :
    PlanSound s later := by
  intro id stored
  obtain ⟨p, found, inForce⟩ := sound id stored
  exact ⟨p, found, inForce.later le⟩

theorem PlanSound.of_none {s : Storage} {now : Nat} (none : s.plan = none) : PlanSound s now := by
  intro id stored
  rw [none] at stored
  cases stored

theorem PlanSound.frame {s t : Storage} {now : Nat} (sound : PlanSound s now)
    (plan : t.plan = s.plan) (ends : t.periodEnd = s.periodEnd) (start : t.winStart = s.winStart)
    (views : t.winViews = s.winViews) (search : t.winSearch = s.winSearch) : PlanSound t now := by
  intro id stored
  obtain ⟨p, found, inForce⟩ := sound id (plan ▸ stored)
  refine ⟨p, found, ?_, ?_, ?_, ?_⟩
  · rw [start]; exact inForce.started
  · rw [search]; exact inForce.search
  · rw [views]; exact inForce.views
  · rw [Storage.getPeriodEnd, ends]; exact inForce.ends

theorem PlanSound.touch {s : Storage} {now : Nat} (sound : PlanSound s now) : PlanSound (ensureInit s) now :=
  sound.frame (ensureInit_plan s) (ensureInit_periodEnd s) (ensureInit_winStart s) (ensureInit_winViews s)
    (ensureInit_winSearch s)

theorem rollWindow_within {s : Storage} {p : Plan} {now : Nat} (sound : InForce p s now) (plan : p.Sound)
    (active : Bool) :
    let w := rollWindow s active now
    (0 ≤ w.search ∧ w.search ≤ p.searchesPerWindow) ∧
      (0 ≤ w.views ∧ ∀ limit, p.viewsPerWindow = some limit → w.views ≤ limit) := by
  rw [rollWindow]
  split
  · refine ⟨⟨Int.le_refl 0, Int.le_of_lt plan.search⟩, Int.le_refl 0, fun limit limited => ?_⟩
    exact Int.le_trans (by decide : (0 : Int) ≤ costEmbedSearch) (plan.views limit limited)
  · exact ⟨sound.search, sound.views⟩

theorem rollWindow_started {s : Storage} {now : Nat} (started : ∃ start ≤ now, s.winStart = some start)
    (active : Bool) : ∃ start ≤ now, (rollWindow s active now).start = some start := by
  rw [rollWindow]
  split
  · exact ⟨now, Nat.le_refl now, rfl⟩
  · exact started

theorem withWindow_inForce {p : Plan} {s : Storage} {now : Nat} {w : Window} (sound : InForce p s now)
    (started : ∃ start ≤ now, w.start = some start)
    (search : 0 ≤ w.search ∧ w.search ≤ p.searchesPerWindow)
    (views : 0 ≤ w.views ∧ ∀ limit, p.viewsPerWindow = some limit → w.views ≤ limit) :
    InForce p (s.withWindow w) now := by
  rw [Storage.withWindow]
  split
  · exact ⟨started, search, views, sound.ends⟩
  · exact sound

theorem draws_inForce {p : Plan} {s : Storage} {now : Nat} {kind : ChargeKind} {w : Window} {balance : Int}
    {id : String} (stored : s.plan = some id) (found : Config.plan id = some p) (sound : InForce p s now)
    (path : String) (draws : Draws s now kind w balance) :
    InForce p ((recordView s now path balance).withWindow w) now := by
  have recorded : InForce p (recordView s now path balance) now := ⟨sound.started, sound.search, sound.views, sound.ends⟩
  obtain ⟨search, views⟩ := rollWindow_within sound (plan_sound found) (planActive s now)
  have started := rollWindow_started sound.started (planActive s now)
  cases draws with
  | unlimited | paid => exact withWindow_inForce recorded started search views
  | quota source =>
    obtain ⟨q, consulted, fits⟩ := chargeSource_window source
    have same : q = p := by
      rw [chargePlan, if_pos (chargeSource_active source), stored] at consulted
      exact Option.some.inj (consulted.symm.trans found)
    subst same
    have cost := viewCost_pos kind
    refine withWindow_inForce recorded (by simpa using started) ?_ ?_
    · cases kind with
      | search => exact ⟨by simp only [Window.draw]; omega, fits⟩
      | image | video | embedSearch => exact search
    · cases kind with
      | search => exact views
      | image | video | embedSearch =>
        obtain ⟨limit, limited, within⟩ := fits
        refine ⟨by simp only [Window.draw]; omega, fun other same => ?_⟩
        cases limited.symm.trans same
        exact within

theorem planSound_step {s : Storage} {i : Input} (sound : PlanSound s i.now) : PlanSound (step s i).2 i.now := by
  obtain ⟨now, op⟩ := i
  cases op with
  | init address => exact sound.touch.frame rfl rfl rfl rfl rfl
  | charge req =>
    have touched := sound.touch
    have outcome := charge_outcome s now req
    change PlanSound (charge s now req).2 now
    generalize charge s now req = result at outcome ⊢
    cases outcome with
    | banned | deduped | refused => exact touched
    | recorded served fresh draws =>
      intro id stored
      simp only [withWindow_plan, recordView_plan] at stored
      obtain ⟨p, found, inForce⟩ := touched id stored
      exact ⟨p, found, draws_inForce stored found inForce _ draws⟩
  | credit req =>
    simp only [step, credit]
    split
    · exact sound
    · exact sound.frame rfl rfl rfl rfl rfl
  | status => exact sound
  | subscribe planId =>
    have outcome := subscribe_outcome s now planId
    change PlanSound (subscribe s now planId).2 now
    generalize subscribe s now planId = result at outcome ⊢
    cases outcome with
    | unknown | poor => exact sound
    | @bought target found =>
      intro id stored
      cases stored
      have plan := plan_sound found
      refine ⟨target, by rw [plan_id found]; exact found, ⟨now, Nat.le_refl now, rfl⟩,
        ⟨Int.le_refl 0, Int.le_of_lt plan.search⟩, ⟨Int.le_refl 0, fun limit limited => ?_⟩, Nat.le_refl _⟩
      exact Int.le_trans (by decide : (0 : Int) ≤ costEmbedSearch) (plan.views limit limited)
  | unsubscribe disarmed => exact .of_none (unsubscribe_frame s now disarmed).1
  | ban banned => exact sound.frame rfl rfl rfl rfl rfl
  | alarm =>
    have outcome := alarm_outcome s now
    change PlanSound (alarm s now).2 now
    generalize alarm s now = result at outcome ⊢
    cases outcome with
    | kept => exact sound.frame rfl rfl rfl rfl rfl
    | lapsed => exact .of_none rfl

def clock (past : List Event) : Nat := (past.head?.map (·.input.now)).getD 0

theorem clock_le {past : List Event} {now : Nat} (later : ∀ e ∈ past, e.input.now ≤ now) : clock past ≤ now := by
  cases past with
  | nil => exact Nat.zero_le now
  | cons e past => exact later e (List.mem_cons_self ..)

theorem run_planSound {past : List Event} {s : Storage} (run : account.Run Ordered {} past s) :
    PlanSound s (clock past) :=
  run.invariant (fun past s => PlanSound s (clock past)) (.of_none rfl)
    fun _ ordered sound => planSound_step (sound.later (clock_le ordered))

theorem proratedRefund_nonneg {price : Int} (positive : 0 ≤ price) (period remaining : Nat) :
    0 ≤ proratedRefund price period remaining := by
  rw [proratedRefund]
  split
  · exact Int.le_refl 0
  · exact Int.tdiv_nonneg (Int.mul_nonneg positive (Int.natCast_nonneg _)) (Int.natCast_nonneg _)

theorem unusedRefund_nonneg (s : Storage) (now : Nat) : 0 ≤ unusedRefund s now := by
  rw [unusedRefund]
  split
  · split
    next p consulted =>
      obtain ⟨id, _, found⟩ := Option.bind_eq_some_iff.mp consulted
      exact proratedRefund_nonneg (Int.le_of_lt (plan_sound found).price.1) _ _
    · exact Int.le_refl 0
  · exact Int.le_refl 0

theorem ensureInit_nonneg {s : Storage} (nonneg : 0 ≤ s.getBalance) : 0 ≤ (ensureInit s).getBalance := by
  rw [ensureInit_getBalance]
  split
  · decide
  · exact nonneg

theorem ensureInit_fits {s : Storage} (fits : InI64 s.getBalance) : InI64 (ensureInit s).getBalance := by
  rw [ensureInit_getBalance]
  split
  · decide
  · exact fits

theorem paid_fits {s : Storage} {kind : ChargeKind} (fits : InI64 s.getBalance)
    (enough : viewCost kind ≤ s.getBalance) : InI64 (s.getBalance - viewCost kind) := by
  have cost := viewCost_pos kind
  unfold InI64 at *
  omega

theorem max_fits {value : Int} (fits : InI64 value) : InI64 (max value 0) := by
  unfold InI64 i64Max at *
  omega

theorem fits_step {s : Storage} {i : Input} (fits : InI64 s.getBalance) : InI64 (step s i).2.getBalance := by
  obtain ⟨now, op⟩ := i
  cases op with
  | init address => exact ensureInit_fits fits
  | charge req =>
    have touched := ensureInit_fits fits
    have outcome := charge_outcome s now req
    change InI64 (charge s now req).2.getBalance
    generalize charge s now req = result at outcome ⊢
    cases outcome with
    | banned | deduped | refused => exact touched
    | recorded served fresh draws =>
      simp only [withWindow_getBalance, recordView_getBalance]
      cases draws with
      | unlimited | quota => exact touched
      | paid source => exact i64_fits _
  | credit req =>
    simp only [step, credit]
    split
    · exact fits
    · exact max_fits (i64_fits _)
  | status | ban => exact fits
  | subscribe planId =>
    have outcome := subscribe_outcome s now planId
    change InI64 (subscribe s now planId).2.getBalance
    generalize subscribe s now planId = result at outcome ⊢
    cases outcome with
    | unknown | poor => exact fits
    | bought => exact max_fits (i64_fits _)
  | unsubscribe disarmed =>
    simp only [step, unsubscribe_getBalance]
    split
    · exact i64_fits _
    · exact fits
  | alarm =>
    have outcome := alarm_outcome s now
    change InI64 (alarm s now).2.getBalance
    generalize alarm s now = result at outcome ⊢
    cases outcome <;> exact fits

/-- Stored balances are `i64` values, overflow or not. -/
theorem run_fits {guard : Guard} {past : List Event} {s : Storage} (run : account.Run guard {} past s) :
    InI64 s.getBalance :=
  run.invariant (fun _ s => InI64 s.getBalance) (by decide) fun _ _ fits => fits_step fits

theorem balance_step {s : Storage} {i : Input} (fits : InI64 s.getBalance) (exact : Exact s i)
    (nonneg : 0 ≤ s.getBalance) : 0 ≤ (step s i).2.getBalance := by
  obtain ⟨now, op⟩ := i
  cases op with
  | init address => exact ensureInit_nonneg nonneg
  | charge req =>
    have touched := ensureInit_nonneg nonneg
    have outcome := charge_outcome s now req
    change 0 ≤ (charge s now req).2.getBalance
    generalize charge s now req = result at outcome ⊢
    cases outcome with
    | banned | deduped | refused => exact touched
    | recorded served fresh draws =>
      simp only [withWindow_getBalance, recordView_getBalance]
      cases draws with
      | unlimited | quota => exact touched
      | paid source =>
        have enough := chargeSource_balance source
        rw [i64_of_fits (paid_fits (ensureInit_fits fits) enough)]
        omega
  | credit req =>
    simp only [step, credit]
    split
    · exact nonneg
    · exact Int.le_max_right _ _
  | status => exact nonneg
  | subscribe planId =>
    have outcome := subscribe_outcome s now planId
    change 0 ≤ (subscribe s now planId).2.getBalance
    generalize subscribe s now planId = result at outcome ⊢
    cases outcome with
    | unknown | poor => exact nonneg
    | bought => exact Int.le_max_right _ _
  | unsubscribe disarmed =>
    simp only [step, unsubscribe_getBalance]
    split
    next active =>
      rw [i64_of_fits (exact active)]
      exact Int.add_nonneg nonneg (unusedRefund_nonneg s now)
    · exact nonneg
  | ban banned => exact nonneg
  | alarm =>
    have outcome := alarm_outcome s now
    change 0 ≤ (alarm s now).2.getBalance
    generalize alarm s now = result at outcome ⊢
    cases outcome <;> exact nonneg

end LetsEmbed.Account
