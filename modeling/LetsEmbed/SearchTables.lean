import LetsEmbed.Db
import LetsEmbed.SearchEngine
import LetsEmbed.Systems.Like
import Mathlib.Data.List.MinMax
import Mathlib.Order.Lattice

/-! The tables behind the text searches (`search_engine/src/lib.rs`), with the keys and
checks that the migrations give them. Scores are only compared. -/

namespace LetsEmbed.SearchEngine
open Results (Image)
open Systems

/-- A row of `tags` or of `wd_tags`. -/
structure Tag where
  id : Int
  name : String

structure Translation where
  tagId : Int
  translation : String

structure WdTagImage (Score : Type) where
  wdTagId : Int
  imageId : Int
  score : Score

/-- `VARCHAR(limit) … CHECK (btrim(…) != '')`, of any characters: that Postgres has no NUL
is left out. -/
def Storable (limit : Nat) (s : String) : Prop := s.toList.length ≤ limit ∧ Db.blank s = false

instance (limit s) : Decidable (Storable limit s) := inferInstanceAs (Decidable (_ ∧ _))

structure Tables (Score : Type) where
  posts : List Post
  images : List Image
  authors : List Author
  authorPosts : List (Int × Int)
  tags : List Tag
  tagPosts : List (Int × Int)
  wdTags : List Tag
  wdTagTranslations : List Translation
  wdTagImages : List (WdTagImage Score)
  listPostImages : Int → Option (List Image)
  listPostVideos : Int → Option (List Video)
  keyed : (posts.map (·.id)).Nodup
  authorsKeyed : (authors.map (·.id)).Nodup
  authorPostsKeyed : authorPosts.Nodup
  tagsKeyed : (tags.map (·.id)).Nodup
  tagPostsKeyed : tagPosts.Nodup
  titled : ∀ p ∈ posts, Storable 255 p.title
  authorsNamed : ∀ a ∈ authors, Storable 100 a.name
  wdTagsNamed : ∀ wt ∈ wdTags, Storable 100 wt.name
  translated : ∀ tt ∈ wdTagTranslations, Storable 100 tt.translation -- blank ones are left out when they are stored

namespace Tables
variable {Score : Type} [LinearOrder Score] (t : Tables Score) (folding : Like.Folding)

def contains (text part : String) : Bool := folding.ilike text.toList ("%" ++ part ++ "%").toList

/-- `pos_tags`, a `UNION`. -/
def posTags (tag : String) : List Int :=
  ((t.wdTags.filter fun wt => contains folding wt.name tag).map (·.id) ++
    (t.wdTagTranslations.filter fun tt => contains folding tt.translation tag).map (·.tagId)).dedup

def matching (tag : String) : List (WdTagImage Score) :=
  (t.posTags folding tag).flatMap fun tagId => t.wdTagImages.filter (·.wdTagId = tagId)

/-- `img_match`, one row for each image of the group. -/
def imgMatch (tag : String) : List (Int × Score) :=
  ((t.matching folding tag).map (·.imageId)).dedup.filterMap fun imageId =>
    (((t.matching folding tag).filter (·.imageId = imageId)).map (·.score)).max?.map (imageId, ·)

/-- `ORDER BY im.max_score DESC, im.image_id DESC`. -/
def taggedImages (tag : String) : List Image :=
  let found := (t.imgMatch folding tag).flatMap fun im => (t.images.filter (·.id = im.1)).map (im, ·)
  (found.insertionSort fun first later =>
    later.1.2 < first.1.2 ∨ later.1.2 = first.1.2 ∧ later.1.1 ≤ first.1.1).map (·.2)

/-- The engine on these tables. -/
def engine : Engine where
  posts := t.posts
  keyed := t.keyed
  images := t.images
  authors := t.authors
  authorPosts := t.authorPosts
  ilike text pattern := folding.ilike text.toList pattern.toList
  taggedImages := t.taggedImages folding
  listPostImages := t.listPostImages
  listPostVideos := t.listPostVideos

def tagged (tag : String) : List Post :=
  (t.tags.filter fun row => contains folding row.name tag).flatMap fun row =>
    (t.tagPosts.filter (·.1 = row.id)).flatMap fun tp => t.posts.filter (·.id = tp.2)

def searchPostsByTag (tag : String) (limit offset : Int) : Except String (List Post) := do
  let found ← Engine.window (Engine.byId (t.tagged folding tag)) limit offset
  if tag = "" then .error "tag should not be empty" else .ok found

end Tables
end LetsEmbed.SearchEngine
