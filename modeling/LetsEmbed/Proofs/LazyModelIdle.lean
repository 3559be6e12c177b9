import LetsEmbed.LazyModel

/-! A model in use is not loaded again, and one that is not is soon gone. -/

namespace LetsEmbed.LazyModel
open Systems

section Steps
variable {idleTimeout : Option Nat} {s : State}

/-- What a step can do with the session, and when it was last used. -/
inductive Moves (idleTimeout : Option Nat) (s : State) : Option Note → State → Prop where
  | other {note s'} (quiet : ∀ id model, note ≠ some (.returned id model)) (kept : note ≠ some .unloaded)
      (inner : s'.inner = s.inner) : Moves idleTimeout s note s'
  | shared {id model s'} (held : s.inner.session = some model) (inner : s'.inner = ⟨some model, s.now⟩) :
      Moves idleTimeout s (some (.returned id model)) s'
  | loaded {id s'} (loads : s.loader = some id) (inner : s'.inner = ⟨some s.loaded, s.now⟩) :
      Moves idleTimeout s (some (.returned id s.loaded)) s'
  | unloaded {idle s'} (timeout : idleTimeout = some idle) (elapsed : idle ≤ s.now - s.inner.lastUsed)
      (inner : s'.inner = ⟨none, s.inner.lastUsed⟩) : Moves idleTimeout s (some .unloaded) s'

theorem moves_quiet {s' : State} (inner : s'.inner = s.inner) : Moves idleTimeout s none s' :=
  .other (fun _ _ impossible => by cases impossible) (fun impossible => by cases impossible) inner

theorem granted_moves (waiting : List Waiter) (waiter : Waiter) :
    Moves idleTimeout s ({ s with waiting }.granted idleTimeout waiter).1 ({ s with waiting }.granted idleTimeout waiter).2 := by
  cases waiter with
  | caller id =>
    rw [State.granted]
    dsimp only
    split
    · next model held => exact .shared held (congrArg (Inner.mk · s.now) held)
    · exact moves_quiet rfl
  | reaper =>
    cases idleTimeout with
    | none => exact moves_quiet rfl
    | some idle =>
      rw [State.granted, State.reap]
      dsimp only
      split
      · split
        · next elapsed => exact .unloaded rfl elapsed rfl
        · exact moves_quiet rfl
      · exact moves_quiet rfl

theorem step_moves (input : Input) : Moves idleTimeout s (s.step idleTimeout input).1 (s.step idleTimeout input).2 := by
  cases input with
  | session id => exact moves_quiet rfl
  | lock =>
    rw [State.step]
    unfold State.lock
    split
    · exact granted_moves _ _
    · exact moves_quiet rfl
  | load result =>
    rw [State.step]
    unfold State.load
    split
    · next id loads => exact .loaded loads rfl
    · exact .other (fun _ _ impossible => by cases impossible) (fun impossible => by cases impossible) rfl
    · exact moves_quiet rfl
  | drop id => exact moves_quiet rfl
  | wake =>
    rw [State.step]
    unfold State.wakeUp
    split
    · split
      · exact moves_quiet rfl
      · exact moves_quiet rfl
    · exact moves_quiet rfl
  | tick elapsed => exact moves_quiet rfl

/-- Who loads found nothing loaded, the reaper sleeps or waits for the lock, and it does not
sleep for long. -/
structure Kept (idleTimeout : Option Nat) (s : State) : Prop where
  clock : s.inner.lastUsed ≤ s.now
  loading : s.loader ≠ none → s.inner.session = none
  reaper : ∀ idle, idleTimeout = some idle → s.waiting.count .reaper = if s.wake = none then 1 else 0
  sleep : ∀ idle instant, idleTimeout = some idle → s.wake = some instant → instant ≤ s.now + (idle + second)
  due : ∀ idle instant, idleTimeout = some idle → s.wake = some instant → s.inner.session ≠ none →
    instant ≤ s.inner.lastUsed + (idle + second)

theorem kept_new (start : Nat) : Kept idleTimeout (.new idleTimeout start) where
  clock := Nat.le_refl start
  loading impossible := (impossible rfl).elim
  reaper idle timeout := by rw [timeout]; rfl
  sleep idle instant timeout asleep := by
    rw [timeout] at asleep
    cases asleep
    exact Nat.le_add_right start _
  due _ _ _ _ held := (held rfl).elim

theorem Kept.touched (kept : Kept idleTimeout s) (free : s.loader = none) (id model : Nat) : Kept idleTimeout (s.touch id model).2 where
  clock := Nat.le_refl s.now
  loading held := (held free).elim
  reaper := kept.reaper
  sleep := kept.sleep
  due idle instant timeout asleep _ := kept.sleep idle instant timeout asleep

theorem Kept.reaped {idle : Nat} (kept : Kept idleTimeout s) (timeout : idleTimeout = some idle)
    {waiting : List Waiter} (alone : waiting.count .reaper = 0) : Kept idleTimeout ({ s with waiting }.reap idle).2 := by
  have clock := kept.clock
  have awake {t : Nat} : waiting.count .reaper = if some t = none then 1 else 0 := alone
  rw [State.reap]
  dsimp only
  split
  · split
    · next elapsed =>
      refine ⟨clock, fun _ => rfl, fun _ _ => awake, fun other instant same asleep => ?_, fun _ _ _ _ held => (held rfl).elim⟩
      obtain rfl := Option.some.inj (timeout.symm.trans same)
      obtain rfl := Option.some.inj asleep
      exact Nat.add_le_add_left (Nat.le_add_right idle second) s.now
    · next elapsed =>
      refine ⟨clock, kept.loading, fun _ _ => awake, fun other instant same asleep => ?_, fun other instant same asleep _ => ?_⟩
      · obtain rfl := Option.some.inj (timeout.symm.trans same)
        obtain rfl := Option.some.inj asleep
        dsimp only
        omega
      · obtain rfl := Option.some.inj (timeout.symm.trans same)
        obtain rfl := Option.some.inj asleep
        dsimp only
        omega
  · next absent =>
    refine ⟨clock, kept.loading, fun _ _ => awake, fun other instant same asleep => ?_, fun _ _ _ _ held => (held absent).elim⟩
    obtain rfl := Option.some.inj (timeout.symm.trans same)
    obtain rfl := Option.some.inj asleep
    exact Nat.add_le_add_left (Nat.le_add_right idle second) s.now

theorem Kept.granted (kept : Kept idleTimeout s) (free : s.loader = none) {waiter : Waiter} {waiting : List Waiter}
    (queue : s.waiting = waiter :: waiting) : Kept idleTimeout ({ s with waiting }.granted idleTimeout waiter).2 := by
  cases waiter with
  | caller id =>
    have counted (idle : Nat) (timeout : idleTimeout = some idle) : waiting.count .reaper = if s.wake = none then 1 else 0 := by
      rw [← kept.reaper idle timeout, queue, List.count_cons_of_ne fun same => by cases same]
    have rest : Kept idleTimeout { s with waiting } := ⟨kept.clock, kept.loading, counted, kept.sleep, kept.due⟩
    rw [State.granted]
    dsimp only
    split
    · exact rest.touched free id _
    · next absent => exact ⟨kept.clock, fun _ => absent, counted, kept.sleep, kept.due⟩
  | reaper =>
    cases timeout : idleTimeout with
    | none =>
      refine ⟨kept.clock, kept.loading, ?_, ?_, ?_⟩ <;> intro _ <;> intros <;> contradiction
    | some idle =>
      subst timeout
      have counted := kept.reaper idle rfl
      rw [queue, List.count_cons_self] at counted
      have alone : waiting.count .reaper = 0 := by
        split at counted <;> omega
      exact kept.reaped rfl alone

theorem Kept.step (kept : Kept idleTimeout s) (input : Input) : Kept idleTimeout (s.step idleTimeout input).2 := by
  cases input with
  | session id =>
    refine ⟨kept.clock, kept.loading, fun idle timeout => ?_, kept.sleep, kept.due⟩
    refine Eq.trans ?_ (kept.reaper idle timeout)
    change (s.waiting ++ [Waiter.caller id]).count .reaper = s.waiting.count .reaper
    rw [List.count_append, List.count_singleton]
    rfl
  | lock =>
    rw [State.step]
    unfold State.lock
    split
    · next free queue => exact kept.granted free queue
    · exact kept
  | load result =>
    rw [State.step]
    unfold State.load
    split
    · next id loads =>
      have free : Kept idleTimeout { s with loader := none, loaded := s.loaded + 1, inner := ⟨some s.loaded, s.now⟩ } :=
        ⟨Nat.le_refl _, fun held => (held rfl).elim, kept.reaper, kept.sleep, fun idle instant timeout asleep _ =>
          kept.sleep idle instant timeout asleep⟩
      exact free.touched rfl id s.loaded
    · exact ⟨kept.clock, fun held => (held rfl).elim, kept.reaper, kept.sleep, kept.due⟩
    · exact kept
  | drop id =>
    refine ⟨kept.clock, fun held => ?_, fun idle timeout => ?_, kept.sleep, kept.due⟩
    · apply kept.loading
      intro free
      apply held
      change s.loader.filter (· ≠ id) = none
      rw [free]
      rfl
    · refine Eq.trans ?_ (kept.reaper idle timeout)
      exact List.count_filter (decide_eq_true fun same => by cases same)
  | wake =>
    rw [State.step]
    unfold State.wakeUp
    split
    · next instant asleep =>
      split
      · refine ⟨kept.clock, kept.loading, fun idle timeout => ?_, fun _ _ _ awake => ?_, fun _ _ _ awake => ?_⟩
        · have before := kept.reaper idle timeout
          rw [asleep, if_neg (Option.some_ne_none instant)] at before
          change (s.waiting ++ [Waiter.reaper]).count .reaper = 1
          rw [List.count_append, before, List.count_singleton]
          rfl
        · cases awake
        · cases awake
      · exact kept
    · exact kept
  | tick elapsed =>
    refine ⟨Nat.le_add_right_of_le kept.clock, kept.loading, kept.reaper, fun idle instant timeout asleep => ?_, kept.due⟩
    have early := kept.sleep idle instant timeout asleep
    change instant ≤ s.now + elapsed + (idle + second)
    omega

theorem step_now {input : Input} (still : ∀ elapsed, input ≠ .tick elapsed) : (s.step idleTimeout input).2.now = s.now := by
  cases input with
  | session id => rfl
  | lock =>
    rw [State.step]
    unfold State.lock
    split
    · next waiter waiting _ _ =>
      cases waiter with
      | caller id =>
        rw [State.granted]
        split <;> rfl
      | reaper =>
        cases idleTimeout with
        | none => rfl
        | some idle =>
          rw [State.granted, State.reap]
          dsimp only
          split
          · split <;> rfl
          · rfl
    · rfl
  | load result =>
    rw [State.step]
    unfold State.load
    split <;> rfl
  | drop id => rfl
  | wake =>
    rw [State.step]
    unfold State.wakeUp
    split
    · split <;> rfl
    · rfl
  | tick elapsed => exact (still elapsed rfl).elim

end Steps

section Runs
variable {idleTimeout : Option Nat} {start : Nat} {guard : Guard State Input (Option Note)} {state : State}
  {past late middle early : List (Event State Input (Option Note))} {event : Event State Input (Option Note)} {id model : Nat}

theorem kept_of_run (run : (machine idleTimeout start).Run guard (.new idleTimeout start) past state) : Kept idleTimeout state := by
  apply run.invariant fun _ state => Kept idleTimeout state
  · exact kept_new start
  · intro _ _ input _ _ kept
    exact kept.step input

theorem moves_of_event (run : (machine idleTimeout start).Run guard (.new idleTimeout start) (late ++ event :: early) state) :
    Moves idleTimeout event.before event.output event.after := by
  rw [run.event_of_mem (List.mem_append_right late List.mem_cons_self)]
  exact step_moves event.input

/-- Whoever has been given a session has been counted as a use. -/
theorem used_since (run : (machine idleTimeout start).Run guard (.new idleTimeout start) past state) :
    ∀ event ∈ past, ∀ id model, event.output = some (.returned id model) → event.before.now ≤ state.inner.lastUsed := by
  apply run.invariant fun past state => ∀ event ∈ past, ∀ id model, event.output = some (.returned id model) →
    event.before.now ≤ state.inner.lastUsed
  · intro _ impossible
    cases impossible
  · intro past state input before _ used event member id model returned
    have moves : Moves idleTimeout state ((machine idleTimeout start).event state input).output
        ((machine idleTimeout start).next state input) := step_moves input
    have clock := (kept_of_run before).clock
    rcases List.mem_cons.mp member with rfl | member
    · rw [returned] at moves
      cases moves with
      | other quiet _ _ => exact (quiet id model rfl).elim
      | shared _ inner => rw [inner]; exact Nat.le_refl _
      | loaded _ inner => rw [inner]; exact Nat.le_refl _
    · have earlier := used event member id model returned
      generalize ((machine idleTimeout start).event state input).output = note at moves
      cases moves with
      | other _ _ inner => rwa [inner]
      | shared _ inner => rw [inner]; exact Nat.le_trans earlier clock
      | loaded _ inner => rw [inner]; exact Nat.le_trans earlier clock
      | unloaded _ _ inner => rwa [inner]

/-- A session stays until it is unloaded. -/
theorem held_since (run : (machine idleTimeout start).Run guard (.new idleTimeout start) (late ++ event :: early) state)
    (returned : event.output = some (.returned id model)) (stays : ∀ event ∈ late, event.output ≠ some .unloaded) :
    state.inner.session = some model := by
  apply run.since (fun state => state.inner.session = some model)
  · have moves := moves_of_event run
    rw [returned] at moves
    cases moves with
    | other quiet _ _ => exact (quiet id model rfl).elim
    | shared _ inner => rw [inner]
    | loaded _ inner => rw [inner]
  · intro later next earlier split held
    subst split
    rw [List.append_assoc, List.cons_append] at run
    have unloads := stays next (List.mem_append_right later List.mem_cons_self)
    have moves := moves_of_event run
    have kept := kept_of_run run.cut.1
    generalize next.output = note at moves unloads
    cases moves with
    | other _ _ inner => rw [inner, held]
    | shared same inner =>
      rw [inner]
      exact same.symm.trans held
    | loaded loads _ =>
      have absent := kept.loading (by rw [loads]; exact Option.some_ne_none _)
      rw [held] at absent
      cases absent
    | unloaded _ _ _ => exact (unloads rfl).elim

theorem unloaded_idle (run : (machine idleTimeout start).Run guard (.new idleTimeout start) (late ++ event :: early) state)
    (unloads : event.output = some .unloaded) : ∃ idle, idleTimeout = some idle ∧ ∀ use ∈ early, ∀ id model,
      use.output = some (.returned id model) → use.before.now + idle ≤ event.before.now := by
  have moves := moves_of_event run
  rw [unloads] at moves
  have clock := (kept_of_run run.cut.1).clock
  cases moves with
  | other _ kept _ => exact (kept rfl).elim
  | @unloaded idle _ timeout elapsed _ =>
    refine ⟨idle, timeout, fun use member id model returned => ?_⟩
    have used := used_since run.cut.1 use member id model returned
    omega

/-- Two callers are given different sessions only where the model was unloaded between them,
after nobody had been given one for the whole timeout. -/
theorem reloaded_after_idle {first again : Event State Input (Option Note)} {id' model' : Nat}
    (run : (machine idleTimeout start).Run guard (.new idleTimeout start) (late ++ again :: (middle ++ first :: early)) state)
    (returned : first.output = some (.returned id model)) (returned' : again.output = some (.returned id' model'))
    (other : model ≠ model') :
    ∃ idle after unload before, idleTimeout = some idle ∧ middle = after ++ unload :: before ∧ unload.output = some .unloaded ∧
      ∀ use ∈ before ++ first :: early, ∀ id model, use.output = some (.returned id model) →
        use.before.now + idle ≤ unload.before.now := by
  have reached := run.cut.1
  by_cases unloads : ∃ unload ∈ middle, unload.output = some .unloaded
  · obtain ⟨unload, member, unloads⟩ := unloads
    obtain ⟨after, before, rfl⟩ := List.append_of_mem member
    rw [List.append_assoc, List.cons_append] at reached
    obtain ⟨idle, timeout, idles⟩ := unloaded_idle reached unloads
    exact ⟨idle, after, unload, before, timeout, rfl, unloads, idles⟩
  · have held := held_since reached returned fun event member unload => unloads ⟨event, member, unload⟩
    have moves := moves_of_event run
    have kept := kept_of_run reached
    rw [returned'] at moves
    cases moves with
    | other quiet _ _ => exact (quiet id' model' rfl).elim
    | shared same _ => exact (other (Option.some.inj (held.symm.trans same))).elim
    | loaded loads _ =>
      have absent := kept.loading (by rw [loads]; exact Option.some_ne_none _)
      rw [held] at absent
      cases absent

/-- What is loaded was given to somebody when it was used last. -/
theorem given_last (run : (machine idleTimeout start).Run guard (.new idleTimeout start) past state)
    (held : state.inner.session = some model) : ∃ use ∈ past, ∃ id, use.output = some (.returned id model) ∧
      use.before.now = state.inner.lastUsed := by
  revert held
  apply run.invariant fun past state => state.inner.session = some model → ∃ use ∈ past, ∃ id,
    use.output = some (.returned id model) ∧ use.before.now = state.inner.lastUsed
  · intro impossible
    cases impossible
  · intro past state input _ _ given held
    have moves : Moves idleTimeout state ((machine idleTimeout start).event state input).output
        ((machine idleTimeout start).next state input) := step_moves input
    generalize noted : ((machine idleTimeout start).event state input).output = note at moves
    cases moves with
    | other _ _ inner =>
      rw [inner] at held ⊢
      obtain ⟨use, member, id, returned, last⟩ := given held
      exact ⟨use, List.mem_cons_of_mem _ member, id, returned, last⟩
    | shared same inner =>
      rw [inner] at held ⊢
      obtain rfl := Option.some.inj held
      exact ⟨_, List.mem_cons_self, _, noted, rfl⟩
    | loaded _ inner =>
      rw [inner] at held ⊢
      obtain rfl := Option.some.inj held
      exact ⟨_, List.mem_cons_self, _, noted, rfl⟩
    | unloaded _ _ inner =>
      rw [inner] at held
      cases held

theorem fresh_of_run {idle : Nat} (run : (machine (some idle) start).Run prompt (.new (some idle) start) past state)
    (held : state.inner.session ≠ none) : state.now ≤ state.inner.lastUsed + (idle + second) := by
  revert held
  apply run.invariant fun _ state => state.inner.session ≠ none → state.now ≤ state.inner.lastUsed + (idle + second)
  · intro impossible
    exact (impossible rfl).elim
  · intro past state input before allowed fresh held
    have moves : Moves (some idle) state ((machine (some idle) start).event state input).output
        ((machine (some idle) start).next state input) := step_moves input
    have kept := kept_of_run before
    generalize ((machine (some idle) start).event state input).output = note at moves
    by_cases passes : ∃ elapsed, input = .tick elapsed
    · obtain ⟨elapsed, rfl⟩ := passes
      obtain ⟨nobody, early⟩ := allowed
      -- with a session there is nobody loading, so nobody waits, and the reaper sleeps
      have free : state.loader = none := by
        by_contra loads
        exact held (kept.loading loads)
      have counted := kept.reaper idle rfl
      rw [nobody free] at counted
      cases asleep : state.wake with
      | none =>
        rw [asleep] at counted
        cases counted
      | some instant =>
        rw [asleep] at early
        exact Nat.le_trans (of_decide_eq_true early) (kept.due idle instant rfl asleep held)
    · have now : ((machine (some idle) start).next state input).now = state.now :=
        step_now fun elapsed tick => passes ⟨elapsed, tick⟩
      rw [now]
      cases moves with
      | other _ _ inner =>
        rw [inner] at held ⊢
        exact fresh held
      | shared _ inner => rw [inner]; exact Nat.le_add_right _ _
      | loaded _ inner => rw [inner]; exact Nat.le_add_right _ _
      | unloaded _ _ inner =>
        rw [inner] at held
        exact (held rfl).elim

/-- Where nothing is kept waiting needlessly, a model that is loaded has been given to
somebody within the timeout and a second. -/
theorem idle_unloaded {idle : Nat} (run : (machine (some idle) start).Run prompt (.new (some idle) start) past state)
    (held : state.inner.session = some model) :
    ∃ use ∈ past, ∃ id, use.output = some (.returned id model) ∧ state.now ≤ use.before.now + (idle + second) := by
  obtain ⟨use, member, id, returned, last⟩ := given_last run held
  have present : state.inner.session ≠ none := by
    rw [held]
    exact Option.some_ne_none model
  have fresh := fresh_of_run run present
  rw [← last] at fresh
  exact ⟨use, member, id, returned, fresh⟩

end Runs

section Example

/-- Two searches, and ten minutes between them. -/
def searches : List Input :=
  [.wake, .lock, .session 0, .lock, .tick (2 * second), .load (.ok ()), .tick (298 * second), .wake, .lock, .tick (2 * second), .wake, .lock,
    .tick (298 * second), .session 1, .lock, .load (.ok ())]

def timeout : Nat := 300 * second

theorem reloaded_after_idle_minutes :
    let run := (machine (some timeout) 0).play ([], .new (some timeout) 0) searches
    ∃ unload ∈ run.1, unload.output = some .unloaded ∧ 2 * second + timeout ≤ unload.before.now := by
  intro run
  have ran : (machine (some timeout) 0).Run (fun _ _ _ => True) (.new (some timeout) 0) run.1 run.2 :=
    Machine.Run.start.play _ (Machine.permitted_always (fun _ _ _ => trivial) ..)
  obtain ⟨again, middle, first, early, split, returned', returned, loaded⟩ : ∃ (again : Event State Input (Option Note)) (middle : _)
      (first : Event State Input (Option Note)) (early : _), run.1 = [] ++ again :: (middle ++ first :: early) ∧ again.output = some (.returned 1 1) ∧
        first.output = some (.returned 0 0) ∧ first.before.now = 2 * second :=
    ⟨_, run.1.tail.take 9, _, run.1.tail.drop 10, rfl, rfl, rfl, rfl⟩
  rw [split] at ran ⊢
  obtain ⟨idle, after, unload, before, same, rfl, unloads, idles⟩ := reloaded_after_idle ran returned returned' (by decide)
  obtain rfl := Option.some.inj same
  have uses := idles first (List.mem_append_right _ List.mem_cons_self) 0 0 returned
  rw [loaded] at uses
  exact ⟨unload, by simp, unloads, uses⟩

theorem idle_unloaded_minutes :
    let run := (machine (some timeout) 0).play ([], .new (some timeout) 0) (searches.take 9)
    ∃ use ∈ run.1, ∃ id, use.output = some (.returned id 0) ∧ run.2.now ≤ use.before.now + (timeout + second) := by
  intro run
  have ran : (machine (some timeout) 0).Run prompt (.new (some timeout) 0) run.1 run.2 := by
    apply Machine.Run.start.play
    decide +kernel
  have held : run.2.inner.session = some 0 := rfl
  exact idle_unloaded ran held

end Example
end LetsEmbed.LazyModel
