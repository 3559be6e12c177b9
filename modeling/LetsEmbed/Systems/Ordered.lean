import Mathlib.Data.List.Basic
import Mathlib.Order.Defs.Unbundled

/-! Processes that take keys one after another, and wait for whoever has the one they
are at. If each takes its keys in ascending order, somebody need not wait. -/

namespace Systems.Ordered

/-- The keys a process has, and the one it is at, if it wants any more. -/
structure Taking (K : Type) where
  held : List K
  next : Option K

variable {K α : Type} {r : K → K → Prop}

def Waits (process other : Taking K) : Prop := ∃ key ∈ process.next, key ∈ other.held

/-- Everything a process has comes before what it is at. -/
def Taking.Ascending (r : K → K → Prop) (process : Taking K) : Prop := ∀ key ∈ process.next, ∀ held ∈ process.held, r held key

theorem exists_last {r : α → α → Prop} [IsTrans α r] [Std.Irrefl r] {items : List α} (nonempty : items ≠ []) :
    ∃ last ∈ items, ∀ other ∈ items, ¬ r last other := by
  induction items with
  | nil => exact (nonempty rfl).elim
  | cons first rest ih =>
    by_cases only : rest = []
    · refine ⟨first, List.mem_cons_self, fun other member => ?_⟩
      rw [only, List.mem_singleton] at member
      rw [member]
      exact irrefl first
    · obtain ⟨last, member, greatest⟩ := ih only
      by_cases behind : r last first
      · refine ⟨first, List.mem_cons_self, List.forall_mem_cons.mpr ⟨irrefl first, fun other later beyond => ?_⟩⟩
        exact greatest other later (IsTrans.trans _ _ _ behind beyond)
      · exact ⟨last, List.mem_cons_of_mem _ member, List.forall_mem_cons.mpr ⟨behind, greatest⟩⟩

/-- One process is at a key before the one another process is at. -/
def Precedes (r : K → K → Prop) (process other : Taking K) : Prop :=
  ∃ key ∈ process.next, ∃ beyond ∈ other.next, r key beyond

instance precedesTrans [IsTrans K r] : IsTrans (Taking K) (Precedes r) where
  trans first second third := by
    intro ⟨key, here, middle, there, before⟩ ⟨same, again, last, at_last, after⟩
    rw [Option.mem_unique again there] at after
    exact ⟨key, here, last, at_last, IsTrans.trans _ _ _ before after⟩

instance precedesIrrefl [Std.Irrefl r] : Std.Irrefl (Precedes r) where
  irrefl process := by
    intro ⟨key, here, same, again, before⟩
    rw [Option.mem_unique again here] at before
    exact irrefl key before

/-- Of processes that take keys in ascending order, one waits for nobody: one that
wants nothing, or the one that is at the greatest key. -/
theorem exists_unblocked [IsTrans K r] [Std.Irrefl r] {processes : List (Taking K)} (nonempty : processes ≠ [])
    (ascending : ∀ process ∈ processes, process.Ascending r) :
    ∃ process ∈ processes, ∀ other ∈ processes, ¬ Waits process other := by
  by_cases wanting : ∀ process ∈ processes, process.next.isSome = true
  · obtain ⟨last, member, greatest⟩ := exists_last (r := Precedes r) nonempty
    refine ⟨last, member, fun other there ⟨key, wanted, held⟩ => ?_⟩
    obtain ⟨beyond, next⟩ := Option.isSome_iff_exists.mp (wanting other there)
    exact greatest other there ⟨key, wanted, beyond, next, ascending other there beyond next key held⟩
  · push Not at wanting
    obtain ⟨content, member, nothing⟩ := wanting
    refine ⟨content, member, fun other _ ⟨key, wanted, _⟩ => ?_⟩
    rw [Option.mem_def.mp wanted] at nothing
    exact nothing rfl

end Systems.Ordered
