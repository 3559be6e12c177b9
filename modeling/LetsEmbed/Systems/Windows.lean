import Mathlib.Data.List.Basic

/-! Offset pagination: windows of one size on rows that stay as they are, one after
the other until a window is taken for the last. Whether it is may depend on what
could be read of its rows. -/

namespace Systems.Windows
variable {α β : Type}

def window (limit : Nat) (rows : List α) (k : Nat) : List α := (rows.drop (k * limit)).take limit

/-- The fuel counts the requests. -/
def walk (read : α → Option β) (more : List α → Bool) (limit : Nat) (rows : List α) : Nat → Nat → Option (List β)
  | 0, _ => none
  | fuel + 1, k =>
    let items := (window limit rows k).filterMap read
    if more (window limit rows k) then (walk read more limit rows fuel (k + 1)).map (items ++ ·) else some items

/-- Nothing can be read behind a window that is taken for the last. -/
def Unbroken (read : α → Option β) (more : List α → Bool) (limit : Nat) (rows : List α) (k : Nat) : Prop :=
  ∀ last ≥ k, more (window limit rows last) = false → ∀ later > last, ∀ row ∈ window limit rows later, read row = none

variable {read : α → Option β} {more : List α → Bool} {limit : Nat} {rows : List α} {k : Nat}

theorem drop_eq_window (k : Nat) : rows.drop (k * limit) = window limit rows k ++ rows.drop ((k + 1) * limit) := by
  rw [window, Nat.succ_mul, ← List.drop_drop, List.take_append_drop]

theorem window_eq_nil (past : rows.length ≤ k * limit) : window limit rows k = [] := by
  rw [window, List.drop_eq_nil_of_le past, List.take_nil]

theorem flatMap_window (count : Nat) : (List.range count).flatMap (window limit rows) = rows.take (count * limit) := by
  induction count with
  | zero => simp
  | succ count ih =>
    rw [List.range_succ, List.flatMap_append, ih, List.flatMap_singleton, Nat.succ_mul, List.take_add]
    rfl

theorem le_length_of_full (full : limit ≤ (window limit rows k).length) (positive : 0 < limit) : (k + 1) * limit ≤ rows.length := by
  rw [window, List.length_take, List.length_drop] at full
  rw [Nat.succ_mul]
  omega

/-- A window that is not full is the last. -/
theorem take_of_short (short : (window limit rows k).length < limit) : rows.take ((k + 1) * limit) = rows := by
  rw [window, List.length_take, List.length_drop] at short
  apply List.take_of_length_le
  rw [Nat.succ_mul]
  omega

theorem mem_drop_iff (positive : 0 < limit) {row : α} :
    row ∈ rows.drop (k * limit) ↔ ∃ j ≥ k, row ∈ window limit rows j := by
  constructor
  · intro member
    obtain ⟨i, inside, rfl⟩ := List.mem_iff_getElem.mp member
    rw [List.length_drop] at inside
    have place : (k + i / limit) * limit + i % limit = k * limit + i := by
      have split := Nat.div_add_mod' i limit
      rw [Nat.add_mul]
      omega
    refine ⟨k + i / limit, Nat.le_add_right .., List.mem_iff_getElem?.mpr ⟨i % limit, ?_⟩⟩
    rw [window, List.getElem?_take_of_lt (Nat.mod_lt i positive), List.getElem?_drop, place, List.getElem_drop,
      List.getElem?_eq_getElem]
  · intro ⟨j, later, member⟩
    have whole : rows.drop (j * limit) = (rows.drop (k * limit)).drop ((j - k) * limit) := by
      rw [List.drop_drop, ← Nat.add_mul, Nat.add_sub_cancel' later]
    have inside : row ∈ rows.drop (j * limit) := List.mem_of_mem_take member
    rw [whole] at inside
    exact List.mem_of_mem_drop inside

theorem window_full {later : Nat} (before : k < later) {row : α} (member : row ∈ window limit rows later) :
    (window limit rows k).length = limit := by
  have inside : later * limit < rows.length := by
    by_contra past
    rw [window_eq_nil (Nat.le_of_not_lt past)] at member
    cases member
  have whole : k * limit + limit ≤ later * limit := by
    rw [← Nat.succ_mul]
    exact Nat.mul_le_mul_right limit before
  rw [window, List.length_take, List.length_drop]
  omega

theorem unbroken_succ (full : more (window limit rows k) = true) :
    Unbroken read more limit rows k ↔ Unbroken read more limit rows (k + 1) := by
  constructor
  · exact fun unbroken last later => unbroken last (Nat.le_of_succ_le later)
  · intro unbroken last later stops
    by_cases here : last = k
    · subst here
      cases full.symm.trans stops
    · exact unbroken last (Nat.lt_of_le_of_ne later (Ne.symm here)) stops

theorem unbroken_last (positive : 0 < limit) (stops : more (window limit rows k) = false) :
    Unbroken read more limit rows k ↔ (rows.drop ((k + 1) * limit)).filterMap read = [] := by
  rw [List.filterMap_eq_nil_iff]
  constructor
  · intro unbroken row member
    obtain ⟨j, later, inside⟩ := (mem_drop_iff positive).mp member
    exact unbroken k (Nat.le_refl k) stops j later row inside
  · intro nothing last later _ j behind row inside
    exact nothing row ((mem_drop_iff positive).mpr ⟨j, Nat.lt_of_le_of_lt later behind, inside⟩)

/-- A walk ends, and it has read everything exactly when it was not broken off. -/
theorem walk_spec (positive : 0 < limit) (ends : more [] = false) (fuel k : Nat) (enough : rows.length ≤ (k + fuel) * limit) :
    ∃ items, walk read more limit rows (fuel + 1) k = some items ∧
      items.Sublist ((rows.drop (k * limit)).filterMap read) ∧
      (items = (rows.drop (k * limit)).filterMap read ↔ Unbroken read more limit rows k) := by
  induction fuel generalizing k with
  | zero =>
    have empty : window limit rows k = [] := window_eq_nil enough
    have passed : rows.drop (k * limit) = [] := List.drop_eq_nil_of_le enough
    have beyond : rows.drop ((k + 1) * limit) = [] :=
      List.drop_eq_nil_of_le (Nat.le_trans enough (Nat.mul_le_mul_right limit (Nat.le_succ k)))
    refine ⟨[], by simp [walk, empty, ends], List.nil_sublist _, ?_⟩
    rw [unbroken_last positive (by rw [empty, ends]), passed, beyond]
    exact iff_of_true rfl rfl
  | succ fuel ih =>
    rw [drop_eq_window k, List.filterMap_append]
    cases full : more (window limit rows k) with
    | false =>
      refine ⟨_, by rw [walk, full]; rfl, List.sublist_append_left .., ?_⟩
      rw [unbroken_last positive full, List.self_eq_append_right]
    | true =>
      obtain ⟨items, walked, part, complete⟩ := ih (k + 1) (by rwa [Nat.add_right_comm])
      refine ⟨_, by rw [walk, full, walked]; rfl, part.append_left _, ?_⟩
      rw [List.append_cancel_left_eq, complete, unbroken_succ full]

end Systems.Windows
