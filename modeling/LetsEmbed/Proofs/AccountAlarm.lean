import LetsEmbed.Proofs.AccountHistory

/-! A stored plan and the pending alarm end together. The alarm may fire at any
time, and a firing may also be one whose alarm has been replaced or cleared since;
its handler then finds the later alarm still pending. -/

namespace LetsEmbed.Account
open Config Systems

def staleAlarm (s : Storage) (now : Nat) : Reply × Storage :=
  let (reply, t) := alarm s now
  (reply, { t with alarm := t.alarm.or s.alarm })

inductive Stimulus where
  | input (i : Input)
  | stale (now : Nat)

def stimulate (s : Storage) : Stimulus → Reply × Storage
  | .input i => step s i
  | .stale now => staleAlarm s now

/-- The object together with the firings that come too late for their alarm. -/
def alarmed : Machine Storage Stimulus Reply := ⟨{}, stimulate⟩

/-- The alarm is pending for exactly the end of the stored plan, and without a plan
no window is open. -/
structure Armed (s : Storage) : Prop where
  pending : ∀ id, s.plan = some id → ∃ ends, s.periodEnd = some ends ∧ s.alarm = some ends
  closed : s.plan = none → s.winStart = none ∧ s.winViews = none ∧ s.winSearch = none

theorem Armed.frame {s t : Storage} (armed : Armed s) (plan : t.plan = s.plan) (ends : t.periodEnd = s.periodEnd)
    (pending : t.alarm = s.alarm) (start : t.winStart = s.winStart) (views : t.winViews = s.winViews)
    (search : t.winSearch = s.winSearch) : Armed t := by
  constructor
  · intro id stored
    rw [ends, pending]
    exact armed.pending id (plan ▸ stored)
  · intro unplanned
    rw [start, views, search]
    exact armed.closed (plan ▸ unplanned)

@[simp] theorem ensureInit_alarm (s : Storage) : (ensureInit s).alarm = s.alarm := by
  unfold ensureInit
  split <;> rfl

theorem Armed.touch {s : Storage} (armed : Armed s) : Armed (ensureInit s) :=
  armed.frame (ensureInit_plan s) (ensureInit_periodEnd s) (ensureInit_alarm s) (ensureInit_winStart s)
    (ensureInit_winViews s) (ensureInit_winSearch s)

/-- Only a plan in force has its window written. -/
theorem Draws.active {s : Storage} {now : Nat} {kind : ChargeKind} {w : Window} {balance : Int}
    (draws : Draws s now kind w balance) (dirty : w.dirty = true) : planActive s now = true := by
  cases draws with
  | unlimited | paid => exact (rollWindow_dirty s now dirty).1
  | quota source => exact chargeSource_active source

theorem Armed.charged {s : Storage} {now : Nat} {req : ChargeReq} {w : Window} {balance : Int} (armed : Armed s)
    (draws : Draws s now req.kind w balance) : Armed ((recordView s now req.path balance).withWindow w) := by
  have viewed : Armed (recordView s now req.path balance) := armed.frame rfl rfl rfl rfl rfl rfl
  unfold Storage.withWindow
  split
  next dirty =>
    refine ⟨viewed.pending, fun unplanned => ?_⟩
    have active := ((planActive_iff s now).mp (draws.active dirty)).1
    rw [show s.plan = none from unplanned] at active
    cases active
  · exact viewed

/-- What a firing does, whatever alarm it leaves pending when it sets none. -/
inductive Fired (s : Storage) (now : Nat) (left : Option Nat) : Storage → Prop where
  | idle (unplanned : s.plan = none) : Fired s now left { s with alarm := left }
  | early (ahead : now < s.getPeriodEnd) : Fired s now left { s with alarm := some s.getPeriodEnd }
  | lapsed (ended : s.getPeriodEnd ≤ now) :
      Fired s now left { s with alarm := left, plan := none, winStart := none, winViews := none, winSearch := none }

theorem alarm_fired (s : Storage) (now : Nat) : Fired s now none (alarm s now).2 := by
  unfold alarm
  dsimp only
  split
  next unplanned => exact .idle (Option.isNone_iff_eq_none.mp unplanned)
  · split
    next ahead =>
      have whole : now + (s.getPeriodEnd - now) = s.getPeriodEnd := Nat.add_sub_of_le (Nat.le_of_lt ahead)
      change Fired s now none { s with alarm := some (now + (s.getPeriodEnd - now)) }
      rw [whole]
      exact .early ahead
    next ended => exact .lapsed (Nat.not_lt.mp ended)

theorem stale_fired (s : Storage) (now : Nat) : Fired s now s.alarm (staleAlarm s now).2 := by
  have fired := alarm_fired s now
  change Fired s now s.alarm { (alarm s now).2 with alarm := (alarm s now).2.alarm.or s.alarm }
  generalize (alarm s now).2 = after at fired ⊢
  cases fired with
  | idle unplanned => exact .idle unplanned
  | early ahead => exact .early ahead
  | lapsed ended => exact .lapsed ended

section Firings
variable {s after : Storage} {now : Nat} {left : Option Nat}

theorem Armed.fire (armed : Armed s) (fired : Fired s now left after) : Armed after := by
  cases fired with
  | idle unplanned =>
    refine ⟨fun id stored => ?_, armed.closed⟩
    cases unplanned.symm.trans stored
  | early ahead =>
    refine ⟨fun id stored => ?_, armed.closed⟩
    obtain ⟨ends, period, _⟩ := armed.pending id stored
    exact ⟨ends, period, congrArg some (congrArg (Option.getD · 0) period)⟩
  | lapsed ended =>
    refine ⟨fun id stored => ?_, fun _ => ⟨rfl, rfl, rfl⟩⟩
    cases stored

theorem Fired.keeps (fired : Fired s now left after) (ahead : now < s.getPeriodEnd) : after.plan = s.plan := by
  cases fired with
  | idle | early => rfl
  | lapsed ended => exact absurd ended (Nat.not_le.mpr ahead)

theorem Fired.lapses (fired : Fired s now left after) (armed : Armed s) (ended : s.getPeriodEnd ≤ now) :
    after.plan = none ∧ after.winStart = none ∧ after.winViews = none ∧ after.winSearch = none := by
  cases fired with
  | idle unplanned => exact ⟨unplanned, armed.closed unplanned⟩
  | early ahead => exact absurd ended (Nat.not_le.mpr ahead)
  | lapsed => exact ⟨rfl, rfl, rfl, rfl⟩

end Firings

theorem armed_step (s : Storage) (i : Input) (armed : Armed s) : Armed (step s i).2 := by
  obtain ⟨now, op⟩ := i
  cases op with
  | init address => exact armed.touch.frame rfl rfl rfl rfl rfl rfl
  | charge req =>
    have outcome := charge_outcome s now req
    change Armed (charge s now req).2
    generalize charge s now req = result at outcome ⊢
    cases outcome with
    | banned | deduped | refused => exact armed.touch
    | recorded _ _ draws => exact armed.touch.charged draws
  | credit req =>
    simp only [step, credit]
    split
    · exact armed
    · exact armed.frame rfl rfl rfl rfl rfl rfl
  | status => exact armed
  | subscribe planId =>
    have outcome := subscribe_outcome s now planId
    change Armed (subscribe s now planId).2
    generalize subscribe s now planId = result at outcome ⊢
    cases outcome with
    | unknown | poor => exact armed
    | @bought target found =>
      constructor
      · intro id _
        refine ⟨now + target.periodSecs, rfl, congrArg some ?_⟩
        omega
      · intro unplanned
        cases unplanned
  | unsubscribe disarmed =>
    constructor
    · intro id stored
      have cleared := (unsubscribe_frame s now disarmed).1
      cases stored.symm.trans cleared
    · intro _
      change _ ∧ _ ∧ (unsubscribe s now disarmed).2.winSearch = none
      unfold unsubscribe
      exact ⟨rfl, rfl, rfl⟩
  | ban banned => exact armed.frame rfl rfl rfl rfl rfl rfl
  | alarm => exact armed.fire (alarm_fired s now)

theorem armed_stimulus (s : Storage) (stimulus : Stimulus) (armed : Armed s) : Armed (stimulate s stimulus).2 := by
  cases stimulus with
  | input i => exact armed_step s i armed
  | stale now => exact armed.fire (stale_fired s now)

/-- Plans lapse exactly when due: along every run, with firings early, late and
stale, whatever the clock does. -/
theorem plan_lapses_when_due {guard : Systems.Guard Storage Stimulus Reply} {past : List (Systems.Event Storage Stimulus Reply)}
    {s : Storage} (run : alarmed.Run guard {} past s) :
    (∀ id, s.plan = some id → ∃ ends, s.periodEnd = some ends ∧ s.alarm = some ends) ∧
    ∀ now, ∀ firing ∈ [alarm, staleAlarm],
      (now < s.getPeriodEnd → (firing s now).2.plan = s.plan) ∧
      (s.getPeriodEnd ≤ now → (firing s now).2.plan = none ∧ (firing s now).2.winStart = none ∧
        (firing s now).2.winViews = none ∧ (firing s now).2.winSearch = none) := by
  have armed : Armed s := by
    apply run.invariant (fun _ s => Armed s)
    · refine ⟨fun id stored => ?_, fun _ => ⟨rfl, rfl, rfl⟩⟩
      cases stored
    · exact fun _ _ armed => armed_stimulus _ _ armed
  refine ⟨armed.pending, fun now firing member => ?_⟩
  rcases List.mem_pair.mp member with rfl | rfl
  · exact ⟨(alarm_fired s now).keeps, (alarm_fired s now).lapses armed⟩
  · exact ⟨(stale_fired s now).keeps, (stale_fired s now).lapses armed⟩

/-- A plan bought again after a cancellation that left the first alarm armed. -/
def renewed : List Stimulus :=
  [.input ⟨0, .credit ⟨50_000, "tx", ""⟩⟩, .input ⟨10, .subscribe "basic"⟩, .input ⟨20, .unsubscribe false⟩,
    .input ⟨30, .subscribe "basic"⟩, .stale 2_592_010]

theorem plan_lapses_when_due_renewed :
    let s := (alarmed.play ([], {}) renewed).2
    s.plan = some "basic" ∧ s.alarm = some 2_592_030 ∧ (alarm s 2_592_029).2.plan = some "basic" ∧
      (alarm s 2_592_030).2.plan = none := by
  intro s
  have run : alarmed.Run (fun _ _ _ => True) {} (alarmed.play ([], {}) renewed).1 s :=
    Machine.Run.start.play _ (Machine.permitted_always (fun _ _ _ => trivial) _ _)
  have stored : s.plan = some "basic" := by decide +kernel
  have ending : s.periodEnd = some 2_592_030 := by decide +kernel
  obtain ⟨pending, firings⟩ := plan_lapses_when_due run
  obtain ⟨ends, period, armed⟩ := pending "basic" stored
  cases period.symm.trans ending
  have due : s.getPeriodEnd = 2_592_030 := congrArg (Option.getD · 0) ending
  refine ⟨stored, armed, ?_, ?_⟩
  · exact ((firings _ alarm List.mem_cons_self).1 (by rw [due]; decide)).trans stored
  · exact ((firings _ alarm List.mem_cons_self).2 (by rw [due])).1

end LetsEmbed.Account
