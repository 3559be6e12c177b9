import LetsEmbed.Proofs.AccountInvariant

/-! What a run's answers say about the storage it leaves: the view count, the
operations that change nothing, and the absence of aborted requests. -/

namespace LetsEmbed.Account
open Config Rust Systems

def Reply.charged : Reply → Bool
  | .charge _ resp => resp.charged
  | _ => false

/-- Answered 400, 402 or 403, as a repeat, or as a replayed credit. -/
def Reply.unapplied : Reply → Bool
  | .charge _ resp => !resp.charged
  | .balance resp => !resp.applied
  | .error _ _ => true
  | _ => false

/-- Storage as an unapplied operation leaves it: only a charge touches a
brand-new account on its way to a refusal. -/
def touched (s : Storage) (op : Op) : Storage :=
  match op with
  | .charge _ => ensureInit s
  | _ => s

theorem step_unapplied {s : Storage} {i : Input} (refused : (step s i).1.unapplied = true) :
    (step s i).2 = touched s i.op := by
  obtain ⟨now, op⟩ := i
  cases op with
  | init | status | unsubscribe | ban => cases refused
  | charge req =>
    have outcome := charge_outcome s now req
    change (charge s now req).1.unapplied = true at refused
    change (charge s now req).2 = ensureInit s
    generalize charge s now req = result at outcome refused ⊢
    cases outcome with
    | banned | deduped | refused => rfl
    | recorded => cases refused
  | credit req =>
    change (credit s req).1.unapplied = true at refused
    change (credit s req).2 = s
    unfold credit at refused ⊢
    dsimp only at refused ⊢
    split
    · rfl
    next fresh => rw [if_neg fresh] at refused; cases refused
  | subscribe planId =>
    have outcome := subscribe_outcome s now planId
    change (subscribe s now planId).1.unapplied = true at refused
    change (subscribe s now planId).2 = s
    generalize subscribe s now planId = result at outcome refused ⊢
    cases outcome with
    | unknown | poor => rfl
    | bought => cases refused
  | alarm =>
    have outcome := alarm_outcome s now
    change (alarm s now).1.unapplied = true at refused
    generalize alarm s now = result at outcome refused
    cases outcome <;> cases refused

/-- No operation aborts, whatever the storage holds. -/
theorem step_answers (s : Storage) (i : Input) (message : String) : (step s i).1 ≠ .panic message := by
  obtain ⟨now, op⟩ := i
  intro aborted
  cases op with
  | init | status | unsubscribe | ban => cases aborted
  | charge req =>
    have outcome := charge_outcome s now req
    change (charge s now req).1 = _ at aborted
    generalize charge s now req = result at outcome aborted
    cases outcome <;> cases aborted
  | credit req =>
    change (credit s req).1 = _ at aborted
    unfold credit at aborted
    dsimp only at aborted
    split at aborted <;> cases aborted
  | subscribe planId =>
    have outcome := subscribe_outcome s now planId
    change (subscribe s now planId).1 = _ at aborted
    generalize subscribe s now planId = result at outcome aborted
    cases outcome <;> cases aborted
  | alarm =>
    have outcome := alarm_outcome s now
    change (alarm s now).1 = _ at aborted
    generalize alarm s now = result at outcome aborted
    cases outcome <;> cases aborted

theorem totalViews_step (s : Storage) (i : Input) : (step s i).2.totalViews.getD 0 =
    s.totalViews.getD 0 + if (step s i).1.charged then 1 else 0 := by
  obtain ⟨now, op⟩ := i
  cases op with
  | init address =>
    change (ensureInit s).totalViews.getD 0 = s.totalViews.getD 0 + 0
    simp
  | charge req =>
    have outcome := charge_outcome s now req
    change (charge s now req).2.totalViews.getD 0 = s.totalViews.getD 0 + if (charge s now req).1.charged then 1 else 0
    generalize charge s now req = result at outcome ⊢
    cases outcome <;> simp [Reply.charged, repeatResp, Window.answer, Window.resp]
  | credit req =>
    simp only [step, credit]
    split <;> exact (Int.add_zero _).symm
  | status | ban => exact (Int.add_zero _).symm
  | subscribe planId =>
    have outcome := subscribe_outcome s now planId
    change (subscribe s now planId).2.totalViews.getD 0 =
      s.totalViews.getD 0 + if (subscribe s now planId).1.charged then 1 else 0
    generalize subscribe s now planId = result at outcome ⊢
    cases outcome <;> exact (Int.add_zero _).symm
  | unsubscribe disarmed =>
    obtain ⟨_, _, _, same, _⟩ := unsubscribe_frame s now disarmed
    change (unsubscribe s now disarmed).2.totalViews.getD 0 = s.totalViews.getD 0 + 0
    rw [same, Int.add_zero]
  | alarm =>
    have outcome := alarm_outcome s now
    change (alarm s now).2.totalViews.getD 0 = s.totalViews.getD 0 + if (alarm s now).1.charged then 1 else 0
    generalize alarm s now = result at outcome ⊢
    cases outcome <;> exact (Int.add_zero _).symm

def chargedCount (past : List Event) : Nat := past.countP (·.output.charged)

theorem run_totalViews {guard : Guard} {past : List Event} {s : Storage} (run : account.Run guard {} past s) :
    s.totalViews.getD 0 = (chargedCount past : Int) := by
  apply run.invariant (fun past s => s.totalViews.getD 0 = (chargedCount past : Int)) rfl
  intro past s i _ _ counted
  have grown := totalViews_step s i
  rw [counted] at grown
  simp only [chargedCount, List.countP_cons, Machine.event_output] at grown ⊢
  change (step s i).2.totalViews.getD 0 = _
  rw [grown]
  change _ = ((_ + if (step s i).1.charged = true then 1 else 0 : Nat) : Int)
  split <;> simp

/-- Every reachable state is sound and every answer of the run accounted for:
no negative balance, no window beyond its quota, no stacked period, and no
refusal or repeat that changes more than the first touch does. -/
theorem reachable_sound {past : List Event} {s : Storage} {now : Nat}
    (run : account.Run (fun past s i => Ordered past s i ∧ Exact s i) {} past s)
    (later : ∀ e ∈ past, e.input.now ≤ now) :
    0 ≤ s.getBalance ∧
    (∀ id, s.plan = some id → now < s.getPeriodEnd → ∃ p, Config.plan id = some p ∧
      s.winStart.isSome = true ∧
      (0 ≤ s.winSearch.getD 0 ∧ s.winSearch.getD 0 ≤ p.searchesPerWindow) ∧
      (0 ≤ s.winViews.getD 0 ∧ ∀ limit, p.viewsPerWindow = some limit → s.winViews.getD 0 ≤ limit) ∧
      s.getPeriodEnd ≤ now + p.periodSecs) ∧
    s.totalViews.getD 0 = (chargedCount past : Int) ∧
    (∀ e ∈ past, e.output.unapplied = true → e.after = touched e.before e.input.op) ∧
    (∀ e ∈ past, ∀ message, e.output ≠ .panic message) := by
  have balance : 0 ≤ s.getBalance := by
    apply run.invariant (fun _ s => 0 ≤ s.getBalance) (Int.le_refl 0)
    exact fun run allowed nonneg => balance_step (run_fits run) allowed.2 nonneg
  have ordered : account.Run Ordered {} past s := run.weaken fun _ _ _ allowed => allowed.1
  have sound := (run_planSound ordered).later (clock_le later)
  refine ⟨balance, ?_, run_totalViews run, ?_, ?_⟩
  · intro id stored _
    obtain ⟨p, found, inForce⟩ := sound id stored
    obtain ⟨start, _, opened⟩ := inForce.started
    exact ⟨p, found, by rw [opened]; rfl, inForce.search, inForce.views, inForce.ends⟩
  · intro e member unapplied
    rw [run.event_of_mem member] at unapplied ⊢
    exact step_unapplied unapplied
  · intro e member message
    rw [run.event_of_mem member]
    exact step_answers _ _ message

def subscriber : List Input :=
  [⟨864_000, .init "0xa"⟩, ⟨864_000, .credit ⟨50_000, "tx", ""⟩⟩, ⟨864_010, .subscribe "basic"⟩]

theorem reachable_sound_subscriber :
    let s := (account.play ([], {}) subscriber).2
    0 ≤ s.getBalance ∧ s.totalViews.getD 0 = 0 ∧ ∃ p, Config.plan "basic" = some p ∧ s.winStart.isSome = true ∧
      s.getPeriodEnd ≤ 864_020 + p.periodSecs := by
  intro s
  have run : account.Run (fun past s i => Ordered past s i ∧ Exact s i) {} (account.play ([], {}) subscriber).1 s :=
    Machine.Run.start.play _ (by decide)
  have later : ∀ e ∈ (account.play ([], {}) subscriber).1, e.input.now ≤ 864_020 := by decide
  obtain ⟨balance, plan, views, _⟩ := reachable_sound run later
  obtain ⟨p, found, started, _, _, ends⟩ := plan "basic" (by decide) (by decide)
  exact ⟨balance, views, p, found, started, ends⟩

end LetsEmbed.Account
