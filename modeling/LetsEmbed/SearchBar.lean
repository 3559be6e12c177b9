import LetsEmbed.Results
import LetsEmbed.Search

/-! The search bar (`search/app/src/components/search_bar.rs`) above the results. A
search is a navigation, and the router hands its query to both. -/

namespace LetsEmbed.Results

def Mode.asStr : Mode → String
  | .tag => "tag"
  | .author => "author"
  | .title => "title"
  | .clip => "clip"
  | .similar => "similar"
  | .searchImage => "search_image"
  | .random => "random"

end LetsEmbed.Results

namespace LetsEmbed.SearchBar
open Results Search Systems Text

/-- `str::parse` at the `usize` of the browser. -/
def parseUsize (s : String) : Option Nat := fromStrRadix 32 10 s

structure Bar where
  mode : Mode
  qInput : String
  limit : Nat
  fileName : String

namespace Bar

def initial (query : String → Option String) : Bar where
  mode := ((query "mode").map Mode.parse).getD .tag
  qInput := (query "q").getD ""
  limit := ((query "limit").bind parseUsize).getD 50
  fileName := ""

/-- The URL of a search. The seed is `(Math.random() * i64::MAX as f64) as i64`. -/
def go (bar : Bar) (q : String) (seed : Nat) : String :=
  let url := "/?mode=" ++ bar.mode.asStr ++ "&q=" ++ urlencode q ++ "&limit=" ++ toString (max bar.limit 1)
  if bar.mode = .random then url ++ ("&seed=" ++ toString seed) else url

/-- The tab of the random mode. -/
def random (bar : Bar) : Bar :=
  { bar with mode := .random, qInput := if bar.qInput ∈ ["posts", "images"] then bar.qInput else "posts" }

def limited (bar : Bar) (text : String) : Bar :=
  match parseUsize text with
  | some v => if v ≥ 1 then { bar with limit := v } else bar
  | none => bar

end Bar

/-- The page with the bar and the results. -/
structure Page where
  bar : Bar
  results : State

inductive Action where
  | tab (mode : Mode)
  | random (seed : Nat)
  | input (q : String)
  | limit (text : String)
  | submit (seed : Nat)
  | chosen (fileName : String)
  | encoded (image : String) (now seed : Nat)
  | results (input : Input)

section Run
variable (boxHeight : (width height : Int) → (columnWidth : Nat) → Nat)
  (server : (id : Nat) → Request → Except String SearchResponse) (queryMap : (url key : String) → Option String)

def navigate (page : Page) (url : String) : Page :=
  { page with results := Results.step boxHeight server page.results (.navigate (queryMap url)) }

def step (page : Page) : Action → Page
  | .tab mode => { page with bar := { page.bar with mode } }
  | .random seed =>
    let bar := page.bar.random
    navigate boxHeight server queryMap { page with bar } (bar.go bar.qInput seed)
  | .input q => { page with bar := { page.bar with qInput := q } }
  | .limit text => { page with bar := page.bar.limited text }
  | .submit seed => navigate boxHeight server queryMap page (page.bar.go page.bar.qInput seed)
  | .chosen fileName => { page with bar := { page.bar with fileName } }
  | .encoded image now seed =>
    let handed := { page with results := Results.step boxHeight server page.results (.hand image) }
    navigate boxHeight server queryMap handed (page.bar.go (toString now) seed)
  | .results input => { page with results := Results.step boxHeight server page.results input }

def machine (query : String → Option String) (imgQuery : Option String) (count columnWidth : Nat) :
    Machine Page Action Unit where
  initial := ⟨.initial query, Results.initial boxHeight query imgQuery count columnWidth⟩
  step page action := ((), step boxHeight server queryMap page action)

end Run
end LetsEmbed.SearchBar
