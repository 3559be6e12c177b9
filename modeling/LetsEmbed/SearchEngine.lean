import LetsEmbed.Results
import LetsEmbed.Systems.Distinct
import Mathlib.Data.List.Sort

/-! The queries of the search engine (`search_engine/src/lib.rs`) that list posts and
draw random ids. Tables stay as they are, and every query goes through. The code leaves out
a row that the database cannot hand over: that page is short by it, since its `LIMIT` has
counted it, and the page of a query that fails is empty without an error. -/

namespace LetsEmbed.SearchEngine
open Results (Image)
open Rust Systems

/-- The finalizer of splitmix64. -/
def mix64 (z : UInt64) : UInt64 :=
  let z := (z ^^^ (z >>> 30)) * 0xbf58476d1ce4e5b9
  let z := (z ^^^ (z >>> 27)) * 0x94d049bb133111eb
  z ^^^ (z >>> 31)

def indices (start stop : Int) : List Int := (List.range (stop - start).toNat).map fun i : Nat => start + i

def randomId (seed min max i : Int) : Int :=
  let span := UInt64.ofInt (i64 (i64 (max - min) + 1))
  i64 (min + i64 (mix64 (UInt64.ofInt seed ^^^ mix64 (UInt64.ofInt i)) % span).toNat)

def randomIds (seed min max limit offset : Int) : List Int :=
  Distinct.fresh [] ((indices offset (satAdd offset limit)).map (randomId seed min max))

structure Post where
  id : Int
  title : String
  deriving DecidableEq

structure Video where
  id : Int
  name : String

structure Author where
  id : Int
  name : String

/-- The tables with what Postgres does of its own: matching patterns, and the whole
answer of a tag search. The two lists of a post may fail to load. -/
structure Engine where
  posts : List Post
  keyed : (posts.map (·.id)).Nodup
  images : List Image
  authors : List Author
  authorPosts : List (Int × Int)
  ilike : (text pattern : String) → Bool
  taggedImages : String → List Image
  listPostImages : Int → Option (List Image)
  listPostVideos : Int → Option (List Video)

namespace Engine
variable (e : Engine)

def contains (text part : String) : Bool := e.ilike text ("%" ++ part ++ "%")

def titled (title : String) : List Post := e.posts.filter fun p => e.contains p.title title

def authored (author : String) : List Post :=
  (e.authors.filter fun a => e.contains a.name author).flatMap fun a =>
    (e.authorPosts.filter (·.1 = a.id)).flatMap fun ap => e.posts.filter (·.id = ap.2)

/-- `ORDER BY id DESC`. -/
def byId (posts : List Post) : List Post := posts.insertionSort fun first later => later.id ≤ first.id

/-- `LIMIT … OFFSET …`, of which neither may be negative. -/
def window {α : Type} (rows : List α) (limit offset : Int) : Except String (List α) :=
  if limit < 0 ∨ offset < 0 then .error "both limit and offset should >= 0"
  else .ok ((rows.drop offset.toNat).take limit.toNat)

def newestPosts (limit offset : Int) : Except String (List Post) := window (byId e.posts) limit offset

def searchPostsByTitle (title : String) (limit offset : Int) : Except String (List Post) := do
  let found ← window (byId (e.titled title)) limit offset
  if title = "" then .error "title should not be empty" else .ok found

def searchPostsByAuthor (author : String) (limit offset : Int) : Except String (List Post) := do
  let found ← window (byId (e.authored author)) limit offset
  if author = "" then .error "author name should not be empty" else .ok found

def searchImagesByTag (tag : String) (limit offset : Int) : Except String (List Image) := do
  let found ← window (e.taggedImages tag) limit offset
  if tag = "" then .error "tag should not be empty" else .ok found

/-- Ids between the smallest and the largest of a table; those without a row are
dropped. -/
def randomRows {α : Type} (rows : List α) (key : α → Int) (seed limit offset : Int) : Except String (List α) :=
  if limit < 0 ∨ offset < 0 then .error "both limit and offset should >= 0"
  else
    let ids := match (rows.map key).min?, (rows.map key).max? with
      | some min, some max => randomIds seed min max limit offset
      | _, _ => []
    .ok (ids.filterMap fun id => rows.find? (key · = id))

def randomPosts (seed limit offset : Int) : Except String (List Post) := randomRows e.posts (·.id) seed limit offset

def randomImages (seed limit offset : Int) : Except String (List Image) := randomRows e.images (·.id) seed limit offset

end Engine
end LetsEmbed.SearchEngine
