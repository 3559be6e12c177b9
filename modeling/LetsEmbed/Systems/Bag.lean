import Mathlib.Algebra.BigOperators.Group.Multiset.Basic
import Mathlib.Data.Nat.Cast.Basic
import Mathlib.Algebra.Order.Group.Multiset

/-! Bags of things that are taken out and put in. What is given for each thing adds
up over a bag, and exchanging some things for others moves the sum by just theirs. -/

namespace Systems.Bag

variable {T M : Type} [AddCommMonoid M] {weight : T → M}

def total (weight : T → M) (bag : Multiset T) : M := (bag.map weight).sum

@[simp] theorem total_zero : total weight 0 = 0 := by simp [total]

@[simp] theorem total_singleton (thing : T) : total weight {thing} = weight thing := by simp [total]

@[simp] theorem total_add (bag more : Multiset T) : total weight (bag + more) = total weight bag + total weight more := by
  simp [total]

@[simp] theorem total_coe (things : List T) : total weight (things : Multiset T) = (things.map weight).sum := by
  simp [total]

theorem total_congr {other : T → M} {bag : Multiset T} (same : ∀ thing ∈ bag, weight thing = other thing) :
    total weight bag = total other bag := congrArg Multiset.sum (Multiset.map_congr rfl same)

theorem total_add_weight (other : T → M) (bag : Multiset T) :
    total (fun thing => weight thing + other thing) bag = total weight bag + total other bag := Multiset.sum_map_add

/-- Sums over several weights can be taken one thing at a time. -/
theorem sum_totals {ι : Type} (weights : ι → T → M) (kinds : List ι) (bag : Multiset T) :
    (kinds.map fun kind => total (weights kind) bag).sum = total (fun thing => (kinds.map fun kind => weights kind thing).sum) bag := by
  induction kinds with
  | nil => simp [total]
  | cons kind rest ih =>
    simp only [List.map_cons, List.sum_cons]
    rw [ih, total_add_weight]

theorem total_cast (weight : T → Nat) (bag : Multiset T) :
    ((total weight bag : Nat) : Int) = total (fun thing => (weight thing : Int)) bag := by
  induction bag using Multiset.induction_on with
  | empty => rfl
  | cons thing rest ih =>
    rw [← Multiset.singleton_add, total_add, total_add, total_singleton, total_singleton, Int.natCast_add, ih]

def exchange [DecidableEq T] (bag taken put : Multiset T) : Multiset T := bag - taken + put

section Exchange
variable [DecidableEq T] {bag taken put : Multiset T}

theorem total_exchange (there : taken ≤ bag) :
    total weight (exchange bag taken put) + total weight taken = total weight bag + total weight put := by
  have split : total weight (bag - taken) + total weight taken = total weight bag := by
    rw [← total_add, Multiset.sub_add_cancel there]
  rw [exchange, total_add, add_right_comm, split]

/-- Everything in the bag afterwards was there before or has been put in. -/
theorem forall_exchange {p : T → Prop} (before : ∀ thing ∈ bag, p thing) (new : ∀ thing ∈ put, p thing) :
    ∀ thing ∈ exchange bag taken put, p thing := by
  intro thing member
  rcases Multiset.mem_add.mp member with old | fresh
  · exact before thing (Multiset.mem_of_le (Multiset.sub_le_self _ _) old)
  · exact new thing fresh

end Exchange
end Systems.Bag
