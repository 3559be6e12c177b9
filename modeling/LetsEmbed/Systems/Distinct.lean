import Mathlib.Data.List.Nodup

/-! Keeping the first of equal items, in order. What is kept of a list is what is
kept of its parts one after the other, each without what came before it. -/

namespace Systems.Distinct
variable {α : Type*} [DecidableEq α] {seen items more : List α} {a : α}

/-- What of the items has not been seen, each at its first place. -/
def fresh (seen : List α) : List α → List α
  | [] => []
  | a :: rest => if a ∈ seen then fresh seen rest else a :: fresh (a :: seen) rest

theorem mem_fresh : a ∈ fresh seen items ↔ a ∈ items ∧ a ∉ seen := by
  induction items generalizing seen with
  | nil => simp [fresh]
  | cons b rest ih =>
    rw [fresh]
    split
    next old =>
      rw [ih, List.mem_cons]
      constructor
      · exact fun kept => ⟨.inr kept.1, kept.2⟩
      · intro ⟨member, new⟩
        exact ⟨member.resolve_left fun same => new (same ▸ old), new⟩
    next new =>
      rw [List.mem_cons, ih, List.mem_cons, List.mem_cons]
      by_cases same : a = b
      · simp [same, new]
      · simp [same]

theorem nodup_fresh : (fresh seen items).Nodup := by
  induction items generalizing seen with
  | nil => exact .nil
  | cons b rest ih =>
    rw [fresh]
    split
    · exact ih
    · exact List.nodup_cons.mpr ⟨fun member => (mem_fresh.mp member).2 List.mem_cons_self, ih⟩

theorem length_fresh_le : (fresh seen items).length ≤ items.length := by
  induction items generalizing seen with
  | nil => exact Nat.le_refl 0
  | cons b rest ih =>
    rw [fresh]
    split
    · exact Nat.le_succ_of_le ih
    · exact Nat.succ_le_succ ih

theorem fresh_congr {other : List α} (same : ∀ b, b ∈ seen ↔ b ∈ other) : fresh seen items = fresh other items := by
  induction items generalizing seen other with
  | nil => rfl
  | cons b rest ih =>
    have pushed : ∀ c, c ∈ b :: seen ↔ c ∈ b :: other := fun c => by rw [List.mem_cons, List.mem_cons, same c]
    simp only [fresh, same b, ih same, ih pushed]

theorem fresh_append : fresh seen (items ++ more) = fresh seen items ++ fresh (seen ++ items) more := by
  induction items generalizing seen with
  | nil => simp [fresh]
  | cons b rest ih =>
    simp only [List.cons_append, fresh]
    split
    next old =>
      rw [ih]
      congr 1
      apply fresh_congr
      intro c
      by_cases same : c = b
      · simp [same, old]
      · simp [same]
    next new =>
      rw [ih, List.cons_append]
      congr 2
      apply fresh_congr
      intro c
      simp only [List.mem_cons, List.mem_append, or_left_comm]

/-- Items already seen can be left out afterwards as well. -/
theorem fresh_eq_filter : fresh seen items = (fresh [] items).filter (· ∉ seen) := by
  have general : ∀ before, fresh (before ++ seen) items = (fresh before items).filter (· ∉ seen) := by
    induction items with
    | nil => exact fun _ => rfl
    | cons b rest ih =>
      intro before
      by_cases old : b ∈ before
      · rw [fresh, fresh, if_pos (List.mem_append_left _ old), if_pos old, ih]
      · have pushed := ih (b :: before)
        by_cases out : b ∈ seen
        · have kept : fresh (before ++ seen) rest = fresh (b :: before ++ seen) rest := by
            apply fresh_congr
            intro c
            by_cases same : c = b
            · simp [same, out]
            · simp [same]
          rw [fresh, fresh, if_pos (List.mem_append_right _ out), if_neg old, kept, pushed]
          exact (List.filter_cons_of_neg (by simpa using out)).symm
        · have new : b ∉ before ++ seen := fun member => (List.mem_append.mp member).elim old out
          rw [fresh, fresh, if_neg new, if_neg old, List.filter_cons_of_pos (by simpa using out), ← pushed]
          rfl
  exact general []

theorem fresh_of_nodup (nodup : items.Nodup) : fresh [] items = items := by
  induction items with
  | nil => rfl
  | cons b rest ih =>
    obtain ⟨apart, rests⟩ := List.nodup_cons.mp nodup
    rw [fresh, if_neg List.not_mem_nil, fresh_eq_filter, ih rests]
    congr 1
    apply List.filter_eq_self.mpr
    intro c member
    have other : c ≠ b := fun same => apart (same ▸ member)
    simpa using other

/-- Of a numbered list that is kept which is not there under a smaller number. -/
theorem fresh_range (f : Nat → α) (n : Nat) :
    fresh [] ((List.range n).map f) = ((List.range n).filter fun k => ∀ j < k, f j ≠ f k).map f := by
  induction n with
  | zero => rfl
  | succ n ih =>
    rw [List.range_succ, List.map_append, fresh_append, ih, List.filter_append, List.map_append, List.nil_append]
    congr 1
    by_cases old : ∃ j < n, f j = f n
    · have seen : f n ∈ (List.range n).map f := by simpa using old
      have dropped : ¬ ∀ j < n, f j ≠ f n := by simpa using old
      rw [List.filter_cons_of_neg (by simpa using dropped)]
      simp [fresh, seen]
    · have new : f n ∉ (List.range n).map f := by simpa using old
      have kept : ∀ j < n, f j ≠ f n := by simpa using old
      rw [List.filter_cons_of_pos (by simpa using kept)]
      simp [fresh, new]

/-- The parts of a list one after the other, each without what was kept before. -/
def gathered (parts : List (List α)) : List α :=
  parts.foldl (fun kept part => kept ++ (fresh [] part).filter (· ∉ kept)) []

theorem gathered_eq (parts : List (List α)) : gathered parts = fresh [] parts.flatten := by
  have general : ∀ before : List α, parts.foldl (fun kept part => kept ++ (fresh [] part).filter (· ∉ kept)) (fresh [] before) =
      fresh [] (before ++ parts.flatten) := by
    induction parts with
    | nil => simp
    | cons part rest ih =>
      intro before
      have joined : fresh [] before ++ (fresh [] part).filter (· ∉ fresh [] before) = fresh [] (before ++ part) := by
        rw [fresh_append, ← fresh_eq_filter, List.nil_append]
        congr 1
        apply fresh_congr
        intro c
        simp [mem_fresh]
      rw [List.foldl_cons, joined, ih, List.flatten_cons, List.append_assoc]
  exact general []

end Systems.Distinct
