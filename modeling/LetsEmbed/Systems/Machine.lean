import Mathlib.Data.List.Basic

/-! Deterministic machines driven by an environment, and their runs from any
state. A guard says which inputs the environment may offer after a given past,
so clock order, ranges and scheduling assumptions are guards, not state. -/

namespace Systems

universe u v w

structure Machine (σ : Type u) (ι : Type v) (ο : Type w) where
  initial : σ
  step : σ → ι → ο × σ

structure Event (σ : Type u) (ι : Type v) (ο : Type w) where
  before : σ
  input : ι
  output : ο
  after : σ

variable {σ : Type u} {ι : Type v} {ο : Type w}

/-- Which inputs may follow a past (newest event first) and a state. -/
abbrev Guard (σ : Type u) (ι : Type v) (ο : Type w) : Type (max u v w) :=
  List (Event σ ι ο) → σ → ι → Prop

namespace Machine
variable (m : Machine σ ι ο)

def next (state : σ) (input : ι) : σ := (m.step state input).2

def event (state : σ) (input : ι) : Event σ ι ο :=
  ⟨state, input, (m.step state input).1, m.next state input⟩

@[simp] theorem event_before (state : σ) (input : ι) : (m.event state input).before = state := rfl
@[simp] theorem event_input (state : σ) (input : ι) : (m.event state input).input = input := rfl
@[simp] theorem event_after (state : σ) (input : ι) : (m.event state input).after = m.next state input := rfl
@[simp] theorem event_output (state : σ) (input : ι) :
    (m.event state input).output = (m.step state input).1 := rfl

/-- The runs from `start`. The past is kept newest first, so that the last
event and the current state are always at hand. -/
inductive Run (guard : Guard σ ι ο) (start : σ) : List (Event σ ι ο) → σ → Prop where
  | start : Run guard start [] start
  | step {past state input} (run : Run guard start past state) (allowed : guard past state input) :
      Run guard start (m.event state input :: past) (m.next state input)

def play (run : List (Event σ ι ο) × σ) : List ι → List (Event σ ι ο) × σ
  | [] => run
  | input :: rest => play (m.event run.2 input :: run.1, m.next run.2 input) rest

def Permitted (guard : Guard σ ι ο) (run : List (Event σ ι ο) × σ) : List ι → Prop
  | [] => True
  | input :: rest =>
    guard run.1 run.2 input ∧ Permitted guard (m.event run.2 input :: run.1, m.next run.2 input) rest

instance Permitted.decidable (guard : Guard σ ι ο) [∀ past state input, Decidable (guard past state input)] :
    (run : List (Event σ ι ο) × σ) → (inputs : List ι) → Decidable (m.Permitted guard run inputs)
  | _, [] => .isTrue trivial
  | run, input :: rest =>
    have := decidable guard (m.event run.2 input :: run.1, m.next run.2 input) rest
    inferInstanceAs (Decidable (guard run.1 run.2 input ∧ _))

variable {m} {guard other : Guard σ ι ο} {start state : σ} {past : List (Event σ ι ο)}

/-- What holds at the start and is kept by every permitted step of a run holds
in every state the run reaches. -/
theorem Run.invariant (run : m.Run guard start past state) (property : List (Event σ ι ο) → σ → Prop)
    (initial : property [] start)
    (kept : ∀ {past state input}, m.Run guard start past state → guard past state input →
      property past state → property (m.event state input :: past) (m.next state input)) :
    property past state := by
  induction run with
  | start => exact initial
  | step run allowed ih => exact kept run allowed ih

theorem Run.weaken (run : m.Run guard start past state)
    (implies : ∀ past state input, guard past state input → other past state input) :
    m.Run other start past state := by
  induction run with
  | start => exact .start
  | step run allowed ih => exact ih.step (implies _ _ _ allowed)

theorem Run.append {middle final : σ} {early late : List (Event σ ι ο)}
    (first : m.Run guard start early middle)
    (rest : m.Run (fun more => guard (more ++ early)) middle late final) :
    m.Run guard start (late ++ early) final := by
  induction rest with
  | start => exact first
  | step run allowed ih => exact ih.step allowed

theorem Run.event_of_mem (run : m.Run guard start past state) {event : Event σ ι ο}
    (member : event ∈ past) : event = m.event event.before event.input := by
  induction run with
  | start => cases member
  | step run allowed ih =>
    rcases List.mem_cons.mp member with rfl | member
    · rfl
    · exact ih member

/-- The run up to an event, and the permission under which it happened. -/
theorem Run.cut {early late : List (Event σ ι ο)} {event : Event σ ι ο}
    (run : m.Run guard start (late ++ event :: early) state) :
    m.Run guard start early event.before ∧ guard early event.before event.input := by
  generalize whole : late ++ event :: early = past at run
  induction run generalizing late with
  | start => simp at whole
  | @step older state input run allowed ih =>
    cases late with
    | nil =>
      simp only [List.nil_append, List.cons.injEq] at whole
      obtain ⟨rfl, rfl⟩ := whole
      exact ⟨run, allowed⟩
    | cons newest late =>
      simp only [List.cons_append, List.cons.injEq] at whole
      exact ih whole.2

theorem Run.last {event : Event σ ι ο} (run : m.Run guard start (event :: past) state) :
    m.Run guard start past event.before ∧ state = event.after := by
  cases run with
  | step run allowed => exact ⟨run, rfl⟩

/-- What an event leaves behind, and every later event keeps, is there at the end. -/
theorem Run.since {early late : List (Event σ ι ο)} {event : Event σ ι ο}
    (run : m.Run guard start (late ++ event :: early) state) (property : σ → Prop) (left : property event.after)
    (kept : ∀ later next earlier, late = later ++ next :: earlier → property next.before → property next.after) :
    property state := by
  induction late generalizing state with
  | nil =>
    rw [run.last.2]
    exact left
  | cons newest late ih =>
    rw [run.last.2]
    apply kept [] newest late rfl
    apply ih run.last.1
    intro later next earlier split
    exact kept (newest :: later) next earlier (congrArg (newest :: ·) split)

theorem Run.play (run : m.Run guard start past state) (inputs : List ι)
    (permitted : m.Permitted guard (past, state) inputs) :
    m.Run guard start (m.play (past, state) inputs).1 (m.play (past, state) inputs).2 := by
  induction inputs generalizing past state with
  | nil => exact run
  | cons input rest ih => exact ih (run.step permitted.1) permitted.2

/-- A guard that only looks at the inputs offers each of these whenever it comes. -/
theorem permitted_of_mem {inputs : List ι} (each : ∀ input ∈ inputs, ∀ past state, guard past state input)
    (run : List (Event σ ι ο) × σ) : m.Permitted guard run inputs := by
  induction inputs generalizing run with
  | nil => trivial
  | cons input rest ih =>
    obtain ⟨here, later⟩ := List.forall_mem_cons.mp each
    exact ⟨here _ _, ih later _⟩

/-- Every input is offered when the guard asks for nothing. -/
theorem permitted_always (always : ∀ past state input, guard past state input) (run : List (Event σ ι ο) × σ)
    (inputs : List ι) : m.Permitted guard run inputs :=
  permitted_of_mem (fun input _ past state => always past state input) run

end Machine
end Systems
