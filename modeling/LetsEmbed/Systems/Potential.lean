import LetsEmbed.Systems.Machine
import Mathlib.Algebra.BigOperators.Group.List.Basic
import Mathlib.Algebra.Order.Ring.Int

/-! Potentials that a machine's steps change by a known amount while waiting
between steps can only lose. Over a run the potential is accounted for exactly:
what it started with, plus the gains of the steps, minus the losses of waiting. -/

namespace Systems

variable {σ ι ο : Type*} {m : Machine σ ι ο} {guard : Guard σ ι ο}

def clockFrom (time : ι → Nat) (since : Nat) (past : List (Event σ ι ο)) : Nat :=
  (past.head?.map (time ·.input)).getD since

/-- Each step happens no earlier than the one before it, or than the start. -/
def Timed (time : ι → Nat) (since : Nat) : Guard σ ι ο := fun past _ input => clockFrom time since past ≤ time input

instance (time : ι → Nat) (since : Nat) (past : List (Event σ ι ο)) (state : σ) (input : ι) :
    Decidable (Timed time since past state input) := inferInstanceAs (Decidable (_ ≤ _))

def gains (delta : σ → ι → Int) (past : List (Event σ ι ο)) : Int :=
  (past.map fun event => delta event.before event.input).sum

def losses (value : σ → Nat → Int) (time : ι → Nat) (since : Nat) : List (Event σ ι ο) → Int
  | [] => 0
  | event :: past => losses value time since past +
      (value event.before (clockFrom time since past) - value event.before (time event.input))

variable {value : σ → Nat → Int} {time : ι → Nat} {delta : σ → ι → Int} {start state : σ} {since : Nat}
  {past : List (Event σ ι ο)}

theorem gains_eq_zero (free : ∀ event ∈ past, delta event.before event.input = 0) : gains delta past = 0 := by
  apply List.sum_eq_zero
  intro gain member
  obtain ⟨event, inPast, rfl⟩ := List.mem_map.mp member
  exact free event inPast

/-- The account of a whole run, from the account of its single steps. -/
theorem Machine.Run.potential (run : m.Run guard start past state)
    (conserved : ∀ {past state input}, m.Run guard start past state → guard past state input →
      value (m.next state input) (time input) = value state (time input) + delta state input) :
    value state (clockFrom time since past) =
      value start since + gains delta past - losses value time since past := by
  induction run with
  | start => simp [clockFrom, gains, losses]
  | @step past state input run allowed ih =>
    have changed := conserved run allowed
    simp only [clockFrom, List.head?_cons, Option.map_some, Option.getD_some, Machine.event_input, gains, losses,
      List.map_cons, List.sum_cons, Machine.event_before] at ih ⊢
    omega

/-- Waiting never gains: with clocks that do not run backwards the losses of a
run are no less than zero. -/
theorem Machine.Run.losses_nonneg (run : m.Run guard start past state)
    (timed : ∀ {past state input}, guard past state input → Timed time since past state input)
    (waiting : ∀ {past state}, m.Run guard start past state →
      ∀ now later, now ≤ later → value state later ≤ value state now) :
    0 ≤ losses value time since past := by
  induction run with
  | start => exact Int.le_refl 0
  | @step past state input run allowed ih =>
    have lost := waiting run _ _ (timed allowed)
    simp only [losses, Machine.event_before, Machine.event_input]
    omega

end Systems
