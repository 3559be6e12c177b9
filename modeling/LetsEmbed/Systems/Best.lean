import Mathlib.Data.List.Basic
import Mathlib.Order.Lattice

/-! The best of what arrives one by one, of which no more than a bound is kept. As
long as there is room everything is kept; then one arrival leaves another out, or is
left out itself. -/

namespace Systems

variable {α β : Type*} [LinearOrder β] {rank : α → β} {k : Nat} {seen kept left : List α} {arrived least : α}

/-- What was seen is what was kept and what was left out, of which nothing ranks above
anything kept. -/
structure Best (rank : α → β) (k : Nat) (seen kept left : List α) : Prop where
  all : (kept ++ left).Perm seen
  length : kept.length = min k seen.length
  better : ∀ a ∈ kept, ∀ b ∈ left, rank b ≤ rank a

namespace Best

theorem empty : Best rank k [] [] [] where
  all := .nil
  length := (Nat.min_zero k).symm
  better := List.forall_mem_nil _

theorem of_perm (best : Best rank k seen kept left) {other : List α} (same : seen.Perm other) : Best rank k other kept left where
  all := best.all.trans same
  length := same.length_eq ▸ best.length
  better := best.better

theorem of_kept (best : Best rank k seen kept left) {other : List α} (same : kept.Perm other) : Best rank k seen other left where
  all := (same.symm.append_right left).trans best.all
  length := same.length_eq ▸ best.length
  better a member := best.better a (same.symm.subset member)

theorem room (best : Best rank k seen kept left) (short : kept.length < k) : left = [] := by
  have counted := best.all.length_eq
  have length := best.length
  rw [List.length_append] at counted
  apply List.eq_nil_of_length_eq_zero
  omega

theorem keep (best : Best rank k seen kept left) (short : kept.length < k) : Best rank k (arrived :: seen) (arrived :: kept) left where
  all := best.all.cons arrived
  length := by
    have length := best.length
    rw [List.length_cons, List.length_cons]
    omega
  better := by
    rw [best.room short]
    intro a member b leftOut
    cases leftOut

theorem refuse (best : Best rank k seen kept left) (full : k ≤ kept.length)
    (worse : ∀ a ∈ kept, rank arrived ≤ rank a) : Best rank k (arrived :: seen) kept (arrived :: left) where
  all := List.perm_middle.trans (best.all.cons arrived)
  length := by
    have length := best.length
    rw [List.length_cons]
    omega
  better := by
    intro a member b leftOut
    cases List.mem_cons.mp leftOut with
    | inl last => exact last ▸ worse a member
    | inr before => exact best.better a member b before

theorem replace [BEq α] [LawfulBEq α] (best : Best rank k seen kept left) (full : k ≤ kept.length) (member : least ∈ kept)
    (minimal : ∀ a ∈ kept, rank least ≤ rank a) (above : rank least ≤ rank arrived) :
    Best rank k (arrived :: seen) (arrived :: kept.erase least) (least :: left) where
  all := by
    apply List.Perm.cons arrived
    calc List.Perm (kept.erase least ++ least :: left) (least :: kept.erase least ++ left) := List.perm_middle
      List.Perm _ (kept ++ left) := (List.perm_cons_erase member).symm.append_right left
      List.Perm _ seen := best.all
  length := by
    have length := best.length
    have positive := List.length_pos_of_mem member
    rw [List.length_cons, List.length_erase_of_mem member, List.length_cons]
    omega
  better := by
    have still (a : α) (other : a ∈ arrived :: kept.erase least) : rank least ≤ rank a := by
      cases List.mem_cons.mp other with
      | inl last => exact last ▸ above
      | inr before => exact minimal a (List.mem_of_mem_erase before)
    intro a other b leftOut
    cases List.mem_cons.mp leftOut with
    | inl now => exact now ▸ still a other
    | inr before => exact le_trans (best.better least member b before) (still a other)

end Best
end Systems
