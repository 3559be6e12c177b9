import LetsEmbed.SearchBar
import LetsEmbed.SearchTables

/-! The details of an image (`image_details` in `search_engine/src/lib.rs`) and the pills
that lead from them back to the search (`search/app/src/components/image_details.rs`). -/

namespace LetsEmbed.Details
open Results (Image)
open Search SearchEngine

structure ImageDetails where
  image : Image
  post : Option Post
  authors : List Author
  tags : List Tag

section Engine
variable {Score : Type} [LinearOrder Score] (t : Tables Score) (postImages : List (Int × Int))

def listPostImages (postId : Int) : List Image :=
  (postImages.filter (·.1 = postId)).flatMap fun pi => t.images.filter (·.id = pi.2)

/-- A `LIMIT 1` without an order may pick any of the posts. Without its image there are
no details. -/
def imageDetails (pick : List Post → Option Post) (id : Int) : Option ImageDetails := do
  let image ← t.images.find? (·.id = id)
  let post := pick ((postImages.filter (·.2 = id)).flatMap fun pi => t.posts.filter (·.id = pi.1))
  let authors := match post with
    | some post => (t.authorPosts.filter (·.2 = post.id)).flatMap fun ap => t.authors.filter (·.id = ap.1)
    | none => []
  let scored := (t.wdTagImages.filter (·.imageId = id)).flatMap fun wti =>
    (t.wdTags.filter (·.id = wti.wdTagId)).map (wti.score, ·)
  let tags := (scored.insertionSort fun first later => later.1 ≤ first.1).map (·.2)
  pure ⟨image, post, authors, tags⟩

end Engine

def renderPill (name mode : String) : String := "/?mode=" ++ mode ++ "&q=" ++ encodePath name ++ "&limit=50"

/-- The pills of the authors stand before those of the tags. -/
def pills (details : ImageDetails) : List String :=
  details.authors.map (fun author => renderPill author.name "author") ++ details.tags.map fun tag => renderPill tag.name "tag"

end LetsEmbed.Details
