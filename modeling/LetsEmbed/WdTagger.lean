import LetsEmbed.Pipeline
import LetsEmbed.Systems.F32
import Mathlib.Data.List.Sort
import Mathlib.Data.Prod.Lex

/-! How the tagger chooses tags by their scores (`wd_tagger/src/lib.rs`). What the
model says of an image is its own matter. -/

namespace LetsEmbed.WdTagger
open Pipeline Systems

/-- A score under the total order, then the index of its tag. -/
abbrev Entry := F32 ×ₗ Nat

/-- The standard library leaves two orders open: how it goes through a heap, and where
an unstable sort puts equal scores. How many bytes can be allocated at once is up to the
machine. -/
structure Std where
  allocates : Nat → Bool
  intoIter : List Entry → List Entry
  intoIter_perm : ∀ heap, (intoIter heap).Perm heap
  sortUnstable : List (Tag × F32) → List (Tag × F32)
  sortUnstable_perm : ∀ items, (sortUnstable items).Perm items
  sortUnstable_sorted : ∀ items, (sortUnstable items).Pairwise fun a b => b.2 ≤ a.2

/-- The heap as it is, a sort by insertion, and no end of memory. -/
def Std.inserting : Std where
  allocates _ := true
  intoIter heap := heap
  intoIter_perm := .refl
  sortUnstable := List.insertionSort fun a b => b.2 ≤ a.2
  sortUnstable_perm := List.perm_insertionSort _
  sortUnstable_sorted := List.pairwise_insertionSort _

def threshold (generalThreshold characterThreshold : F32) : TagType → F32
  | .general => generalThreshold
  | .character => characterThreshold

def entryBytes : Nat := 16

def isizeMax : Nat := 2 ^ 63 - 1

/-- `BinaryHeap::with_capacity`: a capacity of more bytes than an `isize` counts panics,
and one that the allocator refuses aborts. For none it is not asked. -/
def Std.reserves (std : Std) (capacity : Nat) : Bool :=
  capacity == 0 || decide (entryBytes * capacity ≤ isizeMax) && std.allocates (entryBytes * capacity)

/-- The heap is of reversed entries, so that the least is on top. It is a list here,
whose order nothing depends on. -/
def offer (k : Nat) (heap : List Entry) (entry : Entry) : List Entry :=
  if heap.length < k then entry :: heap
  else match heap.min? with
    | some least => if (ofLex entry).1.gt (ofLex least).1 then entry :: heap.erase least else heap
    | none => heap

def entries (vec : List F32) (generalThreshold characterThreshold : F32) (tags : List Tag) : List Entry :=
  ((vec.zip tags).zipIdx.filter fun ((p, t), _) => p.ge (threshold generalThreshold characterThreshold t.type)).map
    fun ((val, _), i) => toLex (val, i)

/-- `none` where it panics or aborts: when there is no room for the heap, which is reserved
first and for one entry more than it will hold, or when an entry names no tag. In a debug
build there must also be as many scores as tags, and the sum must not overflow. -/
def topKHeap (std : Std) (vec : List F32) (k : Nat) (generalThreshold characterThreshold : F32) (tags : List Tag) :
    Option (List (Tag × F32)) :=
  if std.reserves ((k + 1) % 2 ^ 64) then do
    let heap := (entries vec generalThreshold characterThreshold tags).foldl (offer k) []
    let result ← (std.intoIter heap).mapM fun entry => tags[(ofLex entry).2]?.map fun tag => (tag, (ofLex entry).1)
    pure (std.sortUnstable result)
  else none

end LetsEmbed.WdTagger
