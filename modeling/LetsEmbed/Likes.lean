import Mathlib.Data.List.Nodup
import LetsEmbed.Rust
import LetsEmbed.Systems.Keyset

/-! Favorites (`user_worker/src/likes.rs`) over the D1 table `likes`. Ids and times pass
through `f64` on their way to the database. This is exact for times in seconds, while an
id beyond 2^53 may become another one. -/

namespace LetsEmbed.Likes
open Rust Systems

structure Like where
  address : String
  kind : String
  targetId : Int
  createdAt : Int
  deriving DecidableEq

def Like.primaryKey (like : Like) : String × String × Int := (like.address, like.kind, like.targetId)

def validLikeKind (kind : String) : Bool := kind == "post" || kind == "image" || kind == "video"

/-- The table with its primary key and its check. -/
structure Table where
  rows : List Like
  keyed : (rows.map Like.primaryKey).Nodup
  checked : ∀ row ∈ rows, validLikeKind row.kind = true

def Table.empty : Table := ⟨[], List.nodup_nil, by simp⟩

structure LikeReq where
  kind : String
  targetId : Int

structure LikesQuery where
  kind : Option String
  limit : Option Nat
  cursor : Option Int

structure LikeRow where
  kind : String
  targetId : Int
  createdAt : Int
  deriving DecidableEq

inductive Answer where
  | error (status : Nat) (message : String)
  | liked (liked : Bool)
  | likes (items : List LikeRow) (nextCursor : Option Int)
  deriving DecidableEq

def dbErr : Answer := .error 500 "database error"

/-- The session and the kind are checked before anything else. -/
def guarded {α : Type} (session : Option String) (kind : Option String) (refused : Answer → α) (next : String → α) : α :=
  match session with
  | none => refused (.error 401 "not signed in")
  | some address => if kind.all validLikeKind then next address else refused (.error 400 "invalid kind")

namespace Table
variable (table : Table)

/-- `INSERT OR IGNORE`. -/
def insertOrIgnore (like : Like) (valid : validLikeKind like.kind = true) : Table :=
  if fresh : like.primaryKey ∈ table.rows.map Like.primaryKey then table
  else {
    rows := table.rows ++ [like]
    keyed := by
      rw [List.map_append, List.map_singleton, List.nodup_append]
      refine ⟨table.keyed, List.nodup_singleton _, fun key member other single same => ?_⟩
      rw [List.mem_singleton.mp single] at same
      exact fresh (same ▸ member)
    checked := by
      intro row member
      rcases List.mem_append.mp member with member | single
      · exact table.checked row member
      · rw [List.mem_singleton.mp single]
        exact valid }

def delete (address kind : String) (targetId : Int) : Table where
  rows := table.rows.filter fun row => row.primaryKey ≠ (address, kind, targetId)
  keyed := table.keyed.sublist (List.filter_sublist.map _)
  checked row member := table.checked row (List.mem_filter.mp member).1

/-- What `SELECT kind, target_id, created_at … WHERE address = ? [AND kind = ?]` is
about. -/
def matching (address : String) (kind : Option String) : List LikeRow :=
  (table.rows.filter fun row => row.address = address ∧ kind.all (· = row.kind)).map fun row =>
    ⟨row.kind, row.targetId, row.createdAt⟩

end Table

/-- The statement of a handler, which may fail with or without an effect. -/
inductive Ran where
  | done
  | refused
  | lost

def Ran.apply (ran : Ran) (table : Table) (result : Answer × Table) : Answer × Table :=
  match ran with
  | .done => result
  | .refused => (dbErr, table)
  | .lost => (dbErr, result.2)

def like (session : Option String) (req : LikeReq) (now : Int) (ran : Ran) (table : Table) : Answer × Table :=
  match session with
  | none => (.error 401 "not signed in", table)
  | some address =>
    if valid : validLikeKind req.kind = true then
      ran.apply table (.liked true, table.insertOrIgnore ⟨address, req.kind, asF64 req.targetId, now⟩ valid)
    else (.error 400 "invalid kind", table)

def unlike (session : Option String) (req : LikeReq) (ran : Ran) (table : Table) : Answer × Table :=
  guarded session req.kind (·, table) fun address =>
    ran.apply table (.liked false, table.delete address req.kind (asF64 req.targetId))

def liked (session : Option String) (req : LikeReq) (ran : Ran) (table : Table) : Answer :=
  guarded session req.kind id fun address =>
    (ran.apply table (.liked (table.rows.any (·.primaryKey = (address, req.kind, asF64 req.targetId))), table)).1

/-- The last row's `created_at`, only when the page came back full. -/
def pageCursor (items : List LikeRow) (limit : Nat) : Option Int :=
  match items.getLast? with
  | some last => if items.length = limit then some last.createdAt else none
  | none => none

def LikesQuery.clamped (q : LikesQuery) : Nat := max 1 (min (q.limit.getD 50) 100)

/-- `ORDER BY created_at DESC` leaves the order of equal times to the database. -/
def list (session : Option String) (q : LikesQuery) (order : Keyset.Arrangement LikeRow.createdAt) (ran : Ran)
    (table : Table) : Answer :=
  guarded session q.kind id fun address =>
    let selected := (table.matching address q.kind).filter fun row => q.cursor.all (row.createdAt < ·)
    let items := (order.arrange selected).take q.clamped
    (ran.apply table (.likes items (pageCursor items q.clamped), table)).1

end LetsEmbed.Likes
