import LetsEmbed.SearchEngine

/-! The server's side of the results (`search_query` in
`search/app/src/components/results.rs`). -/

namespace LetsEmbed.Results
open SearchEngine

inductive ServerFnError where
  | response (text : String)
  | args (text : String)
  deriving DecidableEq

def toErr {α : Type} : Except String α → Except ServerFnError α
  | .ok value => .ok value
  | .error text => .error (.response text)

/-- A post one of whose lists does not load is skipped. -/
def detailed (engine : Engine) (post : Post) : Option PostItem := do
  let images ← engine.listPostImages post.id
  let _ ← engine.listPostVideos post.id
  pure ⟨post.id, images⟩

def searchQuery (engine : Engine) (mode q : String) (seed limit offset : Int) :
    Except ServerFnError SearchResponse := do
  let mode := Mode.parse mode
  let limit := max limit 1
  let offset := max offset 0
  if q = "" ∨ mode = .author ∨ mode = .title ∨ mode = .random ∧ q ≠ "images" then
    let posts ← if q = "" then toErr (engine.newestPosts limit offset)
      else match mode with
        | .author => toErr (engine.searchPostsByAuthor q limit offset)
        | .title => toErr (engine.searchPostsByTitle q limit offset)
        -- nothing but random posts is left here
        | _ => toErr (engine.randomPosts seed limit offset)
    let items := posts.filterMap (detailed engine)
    let count := items.length
    let hasMore := if mode = .random then decide (count > 0) else decide (count ≥ limit)
    .ok ⟨items, [], hasMore⟩
  else
    match mode with
    | .tag | .random => do
      let images ← if mode = .tag then toErr (engine.searchImagesByTag q limit offset)
        else toErr (engine.randomImages seed limit offset)
      let count := images.length
      let hasMore := if mode = .random then decide (count > 0) else decide (count ≥ limit)
      .ok ⟨[], images, hasMore⟩
    | .similar => .error (.args "similar search moved")
    | _ => .ok ⟨[], [], false⟩

end LetsEmbed.Results
