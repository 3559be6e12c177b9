import Mathlib.Algebra.Order.Ring.Int
import Mathlib.Data.List.Perm.Subperm
import Mathlib.Data.List.Sort

/-! Keyset pagination in descending order of a key that need not be unique. A
page is the first rows below the cursor, and the next cursor is the last key of
a full page. Rows of equal key may come back in any order, a new one each time. -/

namespace Systems.Keyset
variable {α β : Type} [LinearOrder β] {key : α → β}

/-- An order that a query may return its rows in. -/
structure Arrangement (key : α → β) where
  arrange : List α → List α
  perm : ∀ rows, (arrange rows).Perm rows
  sorted : ∀ rows, (arrange rows).Pairwise fun first later => key later ≤ key first

/-- Equal keys in the order they are stored in. -/
def Arrangement.stable (key : α → β) : Arrangement key where
  arrange rows := rows.insertionSort fun first later => key later ≤ key first
  perm rows := List.perm_insertionSort _ rows
  sorted rows := by
    have total : Std.Total fun first later : α => key later ≤ key first := ⟨fun first later => le_total ..⟩
    have transitive : IsTrans α fun first later => key later ≤ key first := ⟨fun a b c first second => le_trans second first⟩
    exact List.pairwise_insertionSort _ rows

section Pages
variable (key)

def below (cursor : Option β) (rows : List α) : List α :=
  match cursor with
  | none => rows
  | some c => rows.filter fun row => key row < c

def nextCursor (limit : Nat) (items : List α) : Option β :=
  match items.getLast? with
  | some last => if items.length = limit then some (key last) else none
  | none => none

def page (arrangement : Arrangement key) (limit : Nat) (cursor : Option β) (rows : List α) : List α :=
  (arrangement.arrange (below key cursor rows)).take limit

/-- Pages from a cursor on until there is no next one; the fuel counts them, and
numbers the requests. -/
def walk (arrangements : Nat → Arrangement key) (limit : Nat) (rows : List α) : Nat → Option β → Option (List α)
  | 0, _ => none
  | fuel + 1, cursor =>
    let items := page key (arrangements fuel) limit cursor rows
    match nextCursor key limit items with
    | none => some items
    | some c => (walk arrangements limit rows fuel (some c)).map (items ++ ·)

def newer (rows : List α) (value : β) : Nat := rows.countP fun row => value < key row

def same (rows : List α) (value : β) : Nat := rows.countP fun row => key row = value

/-- No page ends inside a group of rows with equal keys. -/
def Untied (limit : Nat) (rows : List α) : Prop :=
  ∀ row ∈ rows, ∀ n, n * limit ≤ newer key rows (key row) ∨
    newer key rows (key row) + same key rows (key row) ≤ n * limit

end Pages

section Cursor
variable {arrangements : Nat → Arrangement key} {limit : Nat} {rows : List α}

theorem below_below {c d : β} (le : d ≤ c) : below key (some d) (below key (some c) rows) = below key (some d) rows := by
  simp only [below, List.filter_filter]
  apply List.filter_congr
  intro row member
  by_cases less : key row < d
  · simp [less, lt_of_lt_of_le less le]
  · simp [less]

omit [LinearOrder β] in
theorem nextCursor_some {items : List α} {c : β} (next : nextCursor key limit items = some c) :
    items.length = limit ∧ ∃ front last, items = front ++ [last] ∧ key last = c := by
  unfold nextCursor at next
  cases tail : items.getLast? with
  | none => simp [tail] at next
  | some last =>
    simp only [tail, Option.ite_none_right_eq_some, Option.some.injEq] at next
    obtain ⟨front, rfl⟩ := List.getLast?_eq_some_iff.mp tail
    exact ⟨next.1, front, last, rfl, next.2⟩

theorem page_mem {arrangement : Arrangement key} {cursor : Option β} {row : α}
    (member : row ∈ page key arrangement limit cursor rows) : row ∈ below key cursor rows :=
  (arrangement.perm _).mem_iff.mp (List.mem_of_mem_take member)

/-- The next cursor is the key of a row below the last. -/
theorem nextCursor_page {arrangement : Arrangement key} {cursor : Option β} {c : β}
    (next : nextCursor key limit (page key arrangement limit cursor rows) = some c) : ∃ last ∈ below key cursor rows, key last = c := by
  obtain ⟨_, front, last, split, same⟩ := nextCursor_some next
  have member : last ∈ page key arrangement limit cursor rows := by simp [split]
  exact ⟨last, page_mem member, same⟩

/-- What lies at or above a cursor does not matter to the pages below it. -/
theorem walk_below {c d : β} (le : d ≤ c) (fuel : Nat) :
    walk key arrangements limit (below key (some c) rows) fuel (some d) =
      walk key arrangements limit rows fuel (some d) := by
  induction fuel generalizing d with
  | zero => rfl
  | succ fuel ih =>
    have pages : page key (arrangements fuel) limit (some d) (below key (some c) rows) =
        page key (arrangements fuel) limit (some d) rows := by
      rw [page, page, below_below le]
    simp only [walk, pages]
    cases next : nextCursor key limit (page key (arrangements fuel) limit (some d) rows) with
    | none => rfl
    | some e =>
      obtain ⟨last, found, rfl⟩ := nextCursor_page next
      have less : key last < d := by simpa [below] using (List.mem_filter.mp found).2
      simp only [ih (le_trans (le_of_lt less) le)]

theorem walk_some {c : β} (fuel : Nat) : walk key arrangements limit rows fuel (some c) =
    walk key arrangements limit (below key (some c) rows) fuel none := by
  cases fuel with
  | zero => rfl
  | succ fuel =>
    have pages : page key (arrangements fuel) limit (some c) rows =
        page key (arrangements fuel) limit none (below key (some c) rows) := rfl
    simp only [walk, pages]
    cases next : nextCursor key limit (page key (arrangements fuel) limit none (below key (some c) rows)) with
    | none => rfl
    | some d =>
      obtain ⟨last, found, rfl⟩ := nextCursor_page next
      have less : key last < c := by simpa [below] using (List.mem_filter.mp found).2
      simp only [walk_below (le_of_lt less)]

end Cursor

section Step
variable {arrangement : Arrangement key} {limit : Nat} {rows : List α} {c : β}

omit [LinearOrder β] in
theorem nextCursor_none {items : List α} (positive : 0 < limit) (next : nextCursor key limit items = none) :
    items.length ≠ limit := by
  rintro rfl
  unfold nextCursor at next
  cases tail : items.getLast? with
  | none =>
    rw [List.getLast?_eq_none_iff.mp tail] at positive
    exact absurd positive (Nat.lt_irrefl 0)
  | some last => simp [tail] at next

theorem newer_add_same (rows : List α) (s : β) : newer key rows s + same key rows s = rows.countP fun row => s ≤ key row := by
  induction rows with
  | nil => rfl
  | cons row rest ih =>
    simp only [newer, same, List.countP_cons] at ih ⊢
    rcases lt_trichotomy s (key row) with less | equal | more
    · simp [less, less.le, less.ne']
      omega
    · subst equal
      simp
      omega
    · simp [more.not_gt, more.not_ge, more.ne]
      omega

theorem same_below {s : β} (less : s < c) : same key (below key (some c) rows) s = same key rows s := by
  rw [same, below, List.countP_filter]
  apply List.countP_congr
  intro row _
  simp only [Bool.and_eq_true, decide_eq_true_eq, and_iff_left_iff_imp]
  rintro rfl
  exact less

theorem newer_below {s : β} (less : s < c) :
    newer key rows s = newer key (below key (some c) rows) s + rows.countP fun row => c ≤ key row := by
  rw [newer, newer, below, List.countP_filter]
  induction rows with
  | nil => rfl
  | cons row rest ih =>
    simp only [List.countP_cons, ih]
    by_cases low : key row < c
    · simp [low, low.not_ge]
      omega
    · have high : c ≤ key row := le_of_not_gt low
      simp [low, high, lt_of_lt_of_le less high]
      omega

/-- The rows of a full page are those at or above the cursor, short of the ties
that did not fit. -/
structure FullPage (arrangement : Arrangement key) (limit : Nat) (rows : List α) (c : β) (items left : List α) : Prop where
  split : (items ++ left).Perm rows
  full : items.length = limit
  high : ∀ row ∈ items, c ≤ key row
  low : ∀ row ∈ left, key row ≤ c
  ends : ∃ row ∈ items, key row = c

theorem fullPage_of_next (next : nextCursor key limit (page key arrangement limit none rows) = some c) :
    FullPage arrangement limit rows c (page key arrangement limit none rows) ((arrangement.arrange rows).drop limit) := by
  have whole : page key arrangement limit none rows ++ (arrangement.arrange rows).drop limit = arrangement.arrange rows :=
    List.take_append_drop limit _
  have ordered := arrangement.sorted rows
  rw [← whole, List.pairwise_append] at ordered
  obtain ⟨full, front, last, split, rfl⟩ := nextCursor_some next
  have member : last ∈ page key arrangement limit none rows := by simp [split]
  refine ⟨by rw [whole]; exact arrangement.perm rows, full, ?_, fun row => ordered.2.2 last member row, last, member, rfl⟩
  intro row found
  have within := ordered.1
  rw [split] at found within
  rcases List.mem_append.mp found with found | found
  · exact (List.pairwise_append.mp within).2.2 row found last (List.mem_singleton_self last)
  · rw [List.mem_singleton.mp found]

namespace FullPage
variable {items left : List α} (page : FullPage arrangement limit rows c items left)
include page

theorem count (p : α → Bool) : rows.countP p = items.countP p + left.countP p := by
  rw [← page.split.countP_eq p, List.countP_append]

/-- The rows below the cursor are among those the page left. -/
theorem below_perm : (below key (some c) rows).Perm (left.filter fun row => key row < c) := by
  have none : items.filter (fun row => key row < c) = [] := by
    apply List.filter_eq_nil_iff.mpr
    intro row member
    simpa using page.high row member
  have filtered := page.split.filter fun row => decide (key row < c)
  rw [List.filter_append, none, List.nil_append] at filtered
  exact filtered.symm

/-- As many rows as were left tie with the last one of the page. -/
theorem high_count : (rows.countP fun row => c ≤ key row) = limit + same key left c := by
  have all : (items.countP fun row => decide (c ≤ key row)) = items.length :=
    List.countP_eq_length.mpr fun row member => decide_eq_true (page.high row member)
  have ties : (left.countP fun row => decide (c ≤ key row)) = same key left c := by
    apply List.countP_congr
    intro row member
    simpa using ⟨fun high => le_antisymm (page.low row member) high, fun equal => equal.ge⟩
  rw [page.count, all, ties, page.full]

theorem left_length : left.length = (below key (some c) rows).length + same key left c := by
  rw [page.below_perm.length_eq, ← List.countP_eq_length_filter, same,
    List.length_eq_countP_add_countP fun row => decide (key row < c)]
  congr 1
  apply List.countP_congr
  intro row member
  simpa using ⟨fun high => le_antisymm (page.low row member) high, fun equal => equal.ge⟩

theorem left_perm (untied : same key left c = 0) : (below key (some c) rows).Perm left := by
  refine page.below_perm.trans (List.Perm.of_eq (List.filter_eq_self.mpr ?_))
  intro row member
  have unequal := List.countP_eq_zero.mp untied row member
  simp only [decide_eq_true_eq] at unequal ⊢
  exact lt_of_le_of_ne (page.low row member) unequal

/-- Whether a page ends inside a group is settled at its own end and below it. -/
theorem untied_iff (positive : 0 < limit) : Untied key limit rows ↔
    same key left c = 0 ∧ Untied key limit (below key (some c) rows) := by
  have counts {s : β} (less : s < c) : newer key rows s = newer key (below key (some c) rows) s + (limit + same key left c) :=
    (newer_below less).trans (by rw [page.high_count])
  constructor
  · intro untied
    have ends : same key left c = 0 := by
      obtain ⟨last, member, rfl⟩ := page.ends
      have inside : last ∈ rows := page.split.mem_iff.mp (List.mem_append_left left member)
      have above : 0 < same key rows (key last) := List.countP_pos_iff.mpr ⟨last, inside, by simp⟩
      have group := @newer_add_same _ _ _ key rows (key last)
      rw [page.high_count] at group
      have kept : same key left (key last) < same key rows (key last) := by
        have items : 0 < same key items (key last) := List.countP_pos_iff.mpr ⟨last, member, by simp⟩
        have whole := page.count fun row => decide (key row = key last)
        simp only [same] at items whole ⊢
        omega
      rcases untied last inside 1 with before | after
      · omega
      · omega
    refine ⟨ends, ?_⟩
    intro row member n
    have less : key row < c := by simpa [below] using (List.mem_filter.mp member).2
    have inside : row ∈ rows := (List.mem_filter.mp member).1
    have shifted := untied row inside (n + 1)
    rw [counts less, ← same_below less, ends, Nat.succ_mul] at shifted
    omega
  · rintro ⟨ends, untied⟩ row member n
    by_cases less : key row < c
    · have inside : row ∈ below key (some c) rows := List.mem_filter.mpr ⟨member, by simpa using less⟩
      rw [counts less, ← same_below less, ends]
      cases n with
      | zero => exact .inl (by omega)
      | succ n =>
        have shifted := untied row inside n
        rw [Nat.succ_mul]
        omega
    · have bound : newer key rows (key row) + same key rows (key row) ≤ limit := by
        rw [newer_add_same]
        have high := page.high_count
        rw [ends] at high
        refine Nat.le_trans (List.countP_mono_left ?_) (Nat.le_of_eq high)
        intro other _ above
        simp only [decide_eq_true_eq] at above ⊢
        exact le_trans (le_of_not_gt less) above
      cases n with
      | zero => exact .inl (by omega)
      | succ n =>
        rw [Nat.succ_mul]
        exact .inr (by omega)

end FullPage

theorem untied_of_short (short : rows.length ≤ limit) : Untied key limit rows := by
  intro row _ n
  cases n with
  | zero => exact .inl (by omega)
  | succ n =>
    have bound : newer key rows (key row) + same key rows (key row) ≤ rows.length := by
      rw [newer_add_same]
      exact List.countP_le_length
    rw [Nat.succ_mul]
    exact .inr (by omega)

omit [LinearOrder β] in
theorem same_le_one [DecidableEq β] (distinct : (rows.map key).Nodup) (value : β) :
    (rows.countP fun row => key row = value) ≤ 1 := by
  have count := List.nodup_iff_count_le_one.mp distinct value
  rw [List.count, List.countP_map] at count
  refine Nat.le_trans (List.countP_mono_left ?_) count
  intro row _ equal
  simpa using equal

theorem untied_of_distinct (distinct : (rows.map key).Nodup) : Untied key limit rows := by
  intro row _ n
  have single : same key rows (key row) ≤ 1 := same_le_one distinct (key row)
  omega

end Step

/-- Following the cursors ends, returns no row twice, and returns every row if
and only if no page ends inside a group of rows with equal keys. -/
theorem walk_complete {limit : Nat} (positive : 0 < limit) (arrangements : Nat → Arrangement key) {fuel : Nat}
    (rows : List α) (enough : rows.length < fuel) : ∃ found, walk key arrangements limit rows fuel none = some found ∧
      found.Subperm rows ∧ (found.Perm rows ↔ Untied key limit rows) := by
  induction fuel generalizing rows with
  | zero => exact absurd enough (Nat.not_lt_zero _)
  | succ fuel ih =>
    cases next : nextCursor key limit (page key (arrangements fuel) limit none rows) with
    | none =>
      have short := nextCursor_none positive next
      have size := (arrangements fuel).perm rows |>.length_eq
      have fits : ((arrangements fuel).arrange rows).length ≤ limit := by
        have length : (page key (arrangements fuel) limit none rows).length =
            min limit ((arrangements fuel).arrange rows).length := List.length_take
        omega
      have whole : page key (arrangements fuel) limit none rows = (arrangements fuel).arrange rows := List.take_of_length_le fits
      refine ⟨page key (arrangements fuel) limit none rows, by simp only [walk, next], ?_, ?_⟩
      · rw [whole]
        exact ((arrangements fuel).perm rows).subperm
      · rw [whole]
        exact iff_of_true ((arrangements fuel).perm rows) (untied_of_short (by omega))
    | some c =>
      have full := fullPage_of_next next
      have shrinks : (below key (some c) rows).length < fuel := by
        have left := full.left_length
        have whole := full.split.length_eq
        rw [List.length_append, full.full] at whole
        omega
      obtain ⟨found, rest, sub, perm⟩ := ih (below key (some c) rows) shrinks
      refine ⟨page key (arrangements fuel) limit none rows ++ found, by simp only [walk, next, walk_some, rest, Option.map_some], ?_, ?_⟩
      · refine List.Subperm.trans ?_ full.split.subperm
        apply (List.subperm_append_left _).mpr
        exact sub.trans ((full.below_perm).subperm.trans List.filter_sublist.subperm)
      · rw [full.untied_iff positive, ← perm, ← full.split.congr_right, List.perm_append_left_iff]
        constructor
        · intro all
          have untied : same key ((arrangements fuel |>.arrange rows).drop limit) c = 0 := by
            have length := all.length_eq
            have bound := sub.length_le
            have left := full.left_length
            omega
          exact ⟨untied, all.trans (full.left_perm untied).symm⟩
        · rintro ⟨untied, all⟩
          exact all.trans (full.left_perm untied)

end Systems.Keyset
