import LetsEmbed.Likes

/-! Following the cursors of the favorites list. It is keyset pagination on the
time of the like, whole seconds, so likes of one second are one group. -/

namespace LetsEmbed.Likes
open Systems

/-- A client that passes each cursor back until there is none. -/
def favorites (table : Table) (address : String) (kind : Option String) (limit : Option Nat)
    (orders : Nat → Keyset.Arrangement LikeRow.createdAt) : Nat → Option Int → Option (List LikeRow)
  | 0, _ => none
  | requests + 1, cursor =>
    match list (some address) ⟨kind, limit, cursor⟩ (orders requests) .done table with
    | .likes items none => some items
    | .likes items (some next) =>
      (favorites table address kind limit orders requests (some next)).map (items ++ ·)
    | _ => none

variable {table : Table} {address : String} {kind : Option String} {limit : Option Nat}
  {orders : Nat → Keyset.Arrangement LikeRow.createdAt}

theorem matching_nodup : (table.matching address kind).Nodup := by
  have rows : table.rows.Nodup := List.Nodup.of_map _ table.keyed
  apply List.Nodup.map_on ?_ (rows.filter _)
  intro first member second member' same
  obtain ⟨_, own⟩ := List.mem_filter.mp member
  obtain ⟨_, own'⟩ := List.mem_filter.mp member'
  simp only [Bool.decide_and, Bool.and_eq_true, decide_eq_true_eq] at own own'
  cases first
  cases second
  simp only [LikeRow.mk.injEq] at same
  simp_all

theorem pageCursor_eq (items : List LikeRow) (limit : Nat) :
    pageCursor items limit = Keyset.nextCursor LikeRow.createdAt limit items := by
  rw [pageCursor, Keyset.nextCursor]
  cases items.getLast? with
  | none => rfl
  | some last => rfl

theorem list_page (valid : kind.all validLikeKind = true) (cursor : Option Int)
    (order : Keyset.Arrangement LikeRow.createdAt) :
    let q : LikesQuery := ⟨kind, limit, cursor⟩
    let items := Keyset.page LikeRow.createdAt order q.clamped cursor (table.matching address kind)
    list (some address) q order .done table = .likes items (pageCursor items q.clamped) := by
  intro q items
  have selected : (table.matching address kind).filter (fun row => cursor.all (row.createdAt < ·)) =
      Keyset.below LikeRow.createdAt cursor (table.matching address kind) := by
    cases cursor with
    | none => exact List.filter_eq_self.mpr fun _ _ => rfl
    | some c => rfl
  simp only [list, guarded, q, valid, if_true, selected]
  rfl

theorem favorites_walk (valid : kind.all validLikeKind = true) (requests : Nat) (cursor : Option Int) :
    favorites table address kind limit orders requests cursor =
      Keyset.walk LikeRow.createdAt orders (LikesQuery.clamped ⟨kind, limit, none⟩) (table.matching address kind)
        requests cursor := by
  induction requests generalizing cursor with
  | zero => rfl
  | succ requests ih =>
    have page := @list_page table address kind limit valid cursor (orders requests)
    simp only [LikesQuery.clamped] at page ih ⊢
    rw [pageCursor_eq] at page
    rw [favorites, Keyset.walk, page]
    cases Keyset.nextCursor LikeRow.createdAt (max 1 (min (limit.getD 50) 100)) (Keyset.page LikeRow.createdAt (orders requests)
        (max 1 (min (limit.getD 50) 100)) cursor (table.matching address kind)) with
    | none => rfl
    | some next =>
      dsimp only
      rw [ih]

/-- Following the cursors of any filter ends, returns no like twice, and returns
every like if and only if no page ends inside a second in which several likes
were given. -/
theorem favorites_complete_iff (table : Table) (address : String) (kind : Option String)
    (valid : kind.all validLikeKind = true) (limit : Option Nat) (orders : Nat → Keyset.Arrangement LikeRow.createdAt) :
    ∃ found, favorites table address kind limit orders ((table.matching address kind).length + 1) none = some found ∧
      found.Nodup ∧ (∀ row ∈ found, row ∈ table.matching address kind) ∧
      (found.Perm (table.matching address kind) ↔
        Keyset.Untied LikeRow.createdAt (LikesQuery.clamped ⟨kind, limit, none⟩) (table.matching address kind)) := by
  have positive : 0 < LikesQuery.clamped ⟨kind, limit, none⟩ := Nat.le_max_left 1 _
  obtain ⟨found, walked, sub, complete⟩ :=
    Keyset.walk_complete positive orders (table.matching address kind) (Nat.lt_succ_self _)
  refine ⟨found, (favorites_walk valid _ none).trans walked, ?_, fun row member => sub.subset member, complete⟩
  obtain ⟨arranged, perm, sublist⟩ := sub
  exact perm.nodup_iff.mp (matching_nodup.sublist sublist)

section Example

def sampleLike (targetId createdAt : Int) : Like := ⟨"0xaa", "post", targetId, createdAt⟩

def sampleTable (first second : Int) : Table where
  rows := [sampleLike 1 first, sampleLike 2 second]
  keyed := by simp [sampleLike, Like.primaryKey]
  checked := by
    intro row member
    simp only [List.mem_cons, List.not_mem_nil, or_false] at member
    rcases member with rfl | rfl <;> rfl

/-- Two likes in one second, one a page: the second one is never returned. -/
theorem tied_like_lost :
    let table := sampleTable 1700000000 1700000000
    favorites table "0xaa" none (some 1) (fun _ => .stable _) 3 none = some [⟨"post", 1, 1700000000⟩] ∧
      ⟨"post", 2, 1700000000⟩ ∈ table.matching "0xaa" none := by
  decide

theorem favorites_complete_iff_untied :
    ∃ found, favorites (sampleTable 1700000000 1700000001) "0xaa" (some "post") (some 1) (fun _ => .stable _) 3 none =
        some found ∧ found.Perm ((sampleTable 1700000000 1700000001).matching "0xaa" (some "post")) := by
  obtain ⟨found, followed, _, _, complete⟩ := favorites_complete_iff (sampleTable 1700000000 1700000001) "0xaa" (some "post")
    (by decide) (some 1) fun _ => .stable _
  exact ⟨found, followed, complete.mpr (Keyset.untied_of_distinct (by decide))⟩

end Example

end LetsEmbed.Likes
