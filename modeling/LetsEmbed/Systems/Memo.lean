import LetsEmbed.Systems.Machine

/-! Answers kept under keys that are computed from the questions. Questions of a key
that is being worked on wait for that answer. A failure is answered and not kept, and
what is kept can be dropped at any time. -/

namespace Systems.Memo
variable {Q K V E : Type} [DecidableEq K]

/-- A question that is worked on, and all that wait for its answer. -/
structure Flight (Q K : Type) where
  key : K
  leader : Q
  waiting : List Q

structure State (Q K V : Type) where
  entries : List (K × V)
  flights : List (Flight Q K)

inductive Input (Q K : Type) where
  | ask (q : Q)
  | finish (key : K)
  | evict (key : K)

abbrev Output (Q V E : Type) := List (Q × Except E V)

namespace State
variable (key : Q → K) (infer : Q → Except E V) (s : State Q K V)

def empty : State Q K V := ⟨[], []⟩

def join (flights : List (Flight Q K)) (q : Q) : List (Flight Q K) :=
  if flights.any (·.key = key q) then
    flights.map fun flight => if flight.key = key q then { flight with waiting := flight.waiting ++ [q] } else flight
  else flights ++ [⟨key q, q, [q]⟩]

def ask (q : Q) : Output Q V E × State Q K V :=
  match s.entries.find? (·.1 = key q) with
  | some entry => ([(q, .ok entry.2)], s)
  | none => ([], { s with flights := join key s.flights q })

def keep (entries : List (K × V)) (key : K) : Except E V → List (K × V)
  | .ok value => (key, value) :: entries
  | .error _ => entries

def finish (key : K) : Output Q V E × State Q K V :=
  match s.flights.find? (·.key = key) with
  | some flight => (flight.waiting.map (·, infer flight.leader),
      ⟨keep s.entries key (infer flight.leader), s.flights.filter (·.key ≠ key)⟩)
  | none => ([], s)

def step (s : State Q K V) : Input Q K → Output Q V E × State Q K V
  | .ask q => s.ask key q
  | .finish key => s.finish infer key
  | .evict key => ([], { s with entries := s.entries.filter (·.1 ≠ key) })

end State

def machine (key : Q → K) (infer : Q → Except E V) : Machine (State Q K V) (Input Q K) (Output Q V E) :=
  ⟨.empty, State.step key infer⟩

abbrev Past (Q K V E : Type) := List (Event (State Q K V) (Input Q K) (Output Q V E))

/-- Only these questions are asked. -/
def asking (asked : Q → Prop) : Guard (State Q K V) (Input Q K) (Output Q V E) := fun _ _ input =>
  ∀ q, input = .ask q → asked q

/-- Every question got its own answer. -/
def Transparent (infer : Q → Except E V) (past : Past Q K V E) : Prop :=
  ∀ event ∈ past, ∀ answer ∈ event.output, answer.2 = infer answer.1

/-- Questions of one key have one answer. -/
def Separates (key : Q → K) (infer : Q → Except E V) (asked : Q → Prop) : Prop :=
  ∀ q q', asked q → asked q' → key q = key q' → infer q = infer q'

/-- What is kept, and what is worked on, belongs to questions that were asked. -/
structure Sound (key : Q → K) (infer : Q → Except E V) (asked : Q → Prop) (s : State Q K V) : Prop where
  entries : ∀ entry ∈ s.entries, ∃ q, asked q ∧ key q = entry.1 ∧ infer q = .ok entry.2
  flights : ∀ flight ∈ s.flights, asked flight.leader ∧ key flight.leader = flight.key ∧
    ∀ q ∈ flight.waiting, asked q ∧ key q = flight.key

section Steps
variable {key : Q → K} {infer : Q → Except E V} {asked : Q → Prop} {s : State Q K V} {q : Q}

theorem sound_join (sound : Sound key infer asked s) (asks : asked q) :
    Sound key infer asked { s with flights := State.join key s.flights q } := by
  refine ⟨sound.entries, fun flight member => ?_⟩
  change flight ∈ State.join key s.flights q at member
  unfold State.join at member
  split at member
  · obtain ⟨before, old, same⟩ := List.mem_map.mp member
    obtain ⟨leads, named, waits⟩ := sound.flights before old
    split at same
    next here =>
      rw [← same]
      refine ⟨leads, named, fun other waiting => ?_⟩
      rcases List.mem_append.mp waiting with earlier | new
      · exact waits other earlier
      · rw [List.mem_singleton.mp new]
        exact ⟨asks, here.symm⟩
    next => exact same ▸ ⟨leads, named, waits⟩
  · rcases List.mem_append.mp member with old | new
    · exact sound.flights flight old
    · rw [List.mem_singleton.mp new]
      refine ⟨asks, rfl, fun other waiting => ?_⟩
      rw [List.mem_singleton.mp waiting]
      exact ⟨asks, rfl⟩

theorem sound_ask (sound : Sound key infer asked s) (asks : asked q) :
    Sound key infer asked (s.ask (E := E) key q).2 := by
  unfold State.ask
  split
  · exact sound
  · exact sound_join sound asks

theorem sound_finish (sound : Sound key infer asked s) (k : K) : Sound key infer asked (s.finish infer k).2 := by
  unfold State.finish
  split
  next flight found =>
    obtain ⟨leads, named, _⟩ := sound.flights flight (List.mem_of_find?_eq_some found)
    have here := List.find?_some found
    rw [decide_eq_true_iff] at here
    refine ⟨fun entry member => ?_, fun other member => sound.flights other (List.mem_filter.mp member).1⟩
    cases answer : infer flight.leader with
    | error message =>
      rw [answer] at member
      exact sound.entries entry member
    | ok value =>
      rw [answer] at member
      rcases List.mem_cons.mp member with rfl | old
      · exact ⟨flight.leader, leads, named.trans here, answer⟩
      · exact sound.entries entry old
  · exact sound

theorem sound_step (sound : Sound key infer asked s) {input : Input Q K} (asks : ∀ q, input = .ask q → asked q) :
    Sound key infer asked (s.step key infer input).2 := by
  cases input with
  | ask q => exact sound_ask sound (asks q rfl)
  | finish k => exact sound_finish sound k
  | evict k => exact ⟨fun entry member => sound.entries entry (List.mem_filter.mp member).1, sound.flights⟩

/-- A sound state answers each question with its own answer. -/
theorem own_answers (separates : Separates key infer asked) (sound : Sound key infer asked s) {input : Input Q K}
    (asks : ∀ q, input = .ask q → asked q) : ∀ answer ∈ (s.step key infer input).1, answer.2 = infer answer.1 := by
  intro answer member
  cases input with
  | ask q =>
    change answer ∈ (s.ask key q).1 at member
    unfold State.ask at member
    split at member
    next entry found =>
      rw [List.mem_singleton.mp member]
      have here := List.find?_some found
      rw [decide_eq_true_iff] at here
      obtain ⟨other, asked, named, kept⟩ := sound.entries entry (List.mem_of_find?_eq_some found)
      exact kept.symm.trans (separates other q asked (asks q rfl) (named.trans here))
    next => cases member
  | finish k =>
    change answer ∈ (s.finish infer k).1 at member
    unfold State.finish at member
    split at member
    next flight found =>
      obtain ⟨q, waiting, same⟩ := List.mem_map.mp member
      obtain ⟨leads, named, waits⟩ := sound.flights flight (List.mem_of_find?_eq_some found)
      obtain ⟨asked, named'⟩ := waits q waiting
      rw [← same]
      exact separates flight.leader q leads asked (named.trans named'.symm)
    next => cases member
  | evict k => cases member

end Steps

section Runs
variable {key : Q → K} {infer : Q → Except E V} {asked : Q → Prop} {past : Past Q K V E} {state : State Q K V}

theorem sound_of_run (run : (machine key infer).Run (asking asked) .empty past state) : Sound key infer asked state := by
  apply run.invariant fun _ state => Sound key infer asked state
  · exact ⟨List.forall_mem_nil _, List.forall_mem_nil _⟩
  · intro _ state input _ asks sound
    exact sound_step sound asks

theorem transparent_of_run (separates : Separates key infer asked)
    (run : (machine key infer).Run (asking asked) .empty past state) : Transparent infer past := by
  intro event member
  obtain ⟨late, early, split⟩ := List.append_of_mem member
  rw [split] at run
  rw [run.event_of_mem (List.mem_append_right late List.mem_cons_self)]
  obtain ⟨before, asks⟩ := run.cut
  exact own_answers separates (sound_of_run before) asks

theorem permitted_asking {run : Past Q K V E × State Q K V} {inputs : List (Input Q K)}
    (asks : ∀ q, .ask q ∈ inputs → asked q) : (machine key infer).Permitted (asking asked) run inputs := by
  apply Machine.permitted_of_mem
  intro input member _ _ q named
  exact asks q (named ▸ member)

/-- Asked one right after the other, two questions of one key get one answer. -/
theorem shared_answer {q q' : Q} (same : key q = key q') (asks : asked q) (asks' : asked q') :
    ∃ past state, (machine key infer).Run (asking asked) .empty past state ∧
      ∃ event ∈ past, (q', infer q) ∈ event.output := by
  refine ⟨_, _, Machine.Run.start.play [.ask q, .ask q', .finish (key q)] (permitted_asking ?_), _, List.mem_cons_self, ?_⟩
  · simp [asks, asks']
  · simp [Machine.event, Machine.next, machine, State.step, State.ask, State.join, State.finish, State.empty, same]

/-- What was answered once is answered again, to whoever has the key. -/
theorem kept_answer {q q' : Q} {value : V} (same : key q = key q') (asks : asked q) (asks' : asked q')
    (answer : infer q = .ok value) : ∃ past state, (machine key infer).Run (asking asked) .empty past state ∧
      ∃ event ∈ past, (q', .ok value) ∈ event.output := by
  refine ⟨_, _, Machine.Run.start.play [.ask q, .finish (key q), .ask q'] (permitted_asking ?_), _, List.mem_cons_self, ?_⟩
  · simp [asks, asks']
  · simp [Machine.event, Machine.next, machine, State.step, State.ask, State.join, State.finish, State.keep, State.empty, same,
      answer]

end Runs

/-- Every question gets its own answer, whatever the run, if and only if no two that
may be asked share a key and not their answer. -/
theorem transparent_iff {key : Q → K} {infer : Q → Except E V} {asked : Q → Prop} :
    (∀ past state, (machine key infer).Run (asking asked) .empty past state → Transparent infer past) ↔
      Separates key infer asked := by
  constructor
  · intro transparent q q' asks asks' same
    obtain ⟨past, state, run, event, member, answered⟩ := @shared_answer _ _ _ _ _ key infer asked _ _ same asks asks'
    exact transparent past state run event member _ answered
  · exact fun separates past state run => transparent_of_run separates run

end Systems.Memo
