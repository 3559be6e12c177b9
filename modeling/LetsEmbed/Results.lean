import LetsEmbed.Rust
import LetsEmbed.Systems.Machine
import LetsEmbed.Text

/-! The endless list of results (`search/app/src/components/results.rs`): its
signals, the effects that react to them, and the calls to the server that are on
their way. What is rendered of it is left out. -/

namespace LetsEmbed.Results
open Rust Systems Text

inductive Mode where
  | tag
  | author
  | title
  | clip
  | similar
  | searchImage
  | random
  deriving DecidableEq

def Mode.parse (s : String) : Mode :=
  if s = "author" then .author
  else if s = "title" then .title
  else if s = "clip" then .clip
  else if s = "similar" then .similar
  else if s = "search_image" then .searchImage
  else if s = "random" then .random
  else .tag

/-- `str::parse` at `i64`. -/
def parseI64 (s : String) : Option Int :=
  let (sign, digits) : Int × List Char := match s.toList with
    | '-' :: digits => (-1, digits)
    | '+' :: digits => (1, digits)
    | digits => (1, digits)
  if digits.isEmpty then none
  else ((digitsValue 10 digits).map fun value => sign * value).filter fun value => decide (InI64 value)

structure Params where
  mode : Mode
  q : String
  limit : Int
  seed : Int
  deriving DecidableEq

def readParams (query : String → Option String) : Params where
  mode := .parse ((query "mode").getD "tag")
  q := (query "q").getD ""
  limit := max (((query "limit").bind parseI64).getD 50) 1
  seed := ((query "seed").bind parseI64).getD 0

structure Image where
  id : Int
  name : String
  width : Int
  height : Int
  deriving DecidableEq

/-- Videos and titles are shown only. -/
structure PostItem where
  id : Int
  images : List Image
  deriving DecidableEq

structure SearchResponse where
  posts : List PostItem
  images : List Image
  hasMore : Bool

inductive Item where
  | post (post : PostItem)
  | image (image : Image)
  deriving DecidableEq

def Item.cover : Item → Option Image
  | .post p => p.images.head?
  | .image im => some im

structure Placed where
  item : Item
  w : Nat
  h : Nat

structure Column where
  items : List Placed
  width : Nat
  height : Nat

def Column.clear (column : Column) : Column := { column with items := [], height := 0 }

def columnPad : Nat := 2

/-- `min_by_key` takes the first of equals. -/
def shortest : List Column → Option Nat
  | [] => none
  | column :: rest =>
    match shortest rest with
    | none => some 0
    | some i => if rest[i]?.any (·.height < column.height) then some (i + 1) else some 0

section Layout
variable (boxHeight : (width height : Int) → (columnWidth : Nat) → Nat)

/-- The height of the box is rounded from floating point, that of the column wraps. -/
def Column.push (column : Column) (item : Item) (cover : Image) : Column :=
  let height := boxHeight cover.width cover.height column.width
  { column with
    height := (column.height + (height + columnPad)) % 2 ^ 32
    items := column.items ++ [⟨item, column.width, height⟩] }

def place (columns : List Column) (item : Item) : List Column :=
  match item.cover, shortest columns with
  | some cover, some i => columns.modify i fun column => column.push boxHeight item cover
  | _, _ => columns

def placePost (columns : List Column) (post : PostItem) : List Column := place boxHeight columns (.post post)

def placeImage (columns : List Column) (image : Image) : List Column := place boxHeight columns (.image image)

def rowMajor (old : List Column) : List Item :=
  let maxRow := (old.map (·.items.length)).foldl max 0
  (List.range maxRow).flatMap fun row => old.filterMap fun column => column.items[row]?.map (·.item)

/-- `count` and `columnWidth` are rounded from the width of the element. -/
def reflow (old : List Column) (count columnWidth : Nat) : List Column :=
  (rowMajor old).foldl (place boxHeight) (List.replicate (max count 1) ⟨[], columnWidth, 0⟩)

end Layout

/-- What a call asks the server for. -/
structure Request where
  params : Params
  image : Option String
  offset : Int

/-- A call that is launched has read the image to search by, if it takes one. -/
structure Call where
  id : Nat
  params : Params
  offset : Int
  launched : Option (Option String)

/-- `params` is a memo of the URL; once read it is `stale` until its effect has run.
`handed` says that an image was left for a navigation that has not taken effect. -/
structure State where
  url : Params
  params : Params
  stale : Bool
  imgQuery : Option String
  handed : Bool
  columns : List Column
  images : List Image
  offset : Int
  hasMore : Bool
  loading : Bool
  error : Option String
  reqId : Nat
  calls : List Call

inductive Input where
  | navigate (query : String → Option String)
  | hand (image : String)
  | react
  | scroll
  | resize (count columnWidth : Nat)
  | launch (id : Nat)
  | answer (id : Nat)

section Run
variable (boxHeight : (width height : Int) → (columnWidth : Nat) → Nat)
  (server : (id : Nat) → Request → Except String SearchResponse)

namespace State
variable (s : State)

def read : State := if s.url = s.params then s else { s with params := s.url, stale := true }

def loadPage (offset : Int) : State :=
  let s := s.read
  let id := s.reqId + 1
  { s with reqId := id, loading := true, error := none, calls := s.calls ++ [⟨id, s.params, offset, none⟩] }

def react : State :=
  let s := s.read
  if s.stale then
    State.loadPage { s with
      stale := false, handed := false, columns := s.columns.map Column.clear, images := [], offset := 0, hasMore := true
      error := none } 0
  else s

def scroll : State :=
  if !s.loading && s.hasMore then
    let s := s.read
    let next := i64 (s.offset + s.params.limit)
    State.loadPage { s with offset := next } next
  else s

/-- Without an image there is nothing to search by, and no answer to wait for. -/
def launch (id : Nat) : State :=
  match s.calls.find? (·.id = id) with
  | some ⟨_, params, _, none⟩ =>
    if params.mode = .searchImage ∧ s.imgQuery = none then
      let dropped := { s with calls := s.calls.filter (·.id ≠ id) }
      if s.reqId = id then { dropped with hasMore := false, loading := false } else dropped
    else
      let image := if params.mode = .searchImage then s.imgQuery else none
      { s with calls := s.calls.map fun call => if call.id = id then { call with launched := some image } else call }
  | _ => s

def merge (result : Except String SearchResponse) : State :=
  match result with
  | .ok resp => { s with
    columns := resp.images.foldl (placeImage boxHeight) (resp.posts.foldl (placePost boxHeight) s.columns)
    images := s.images ++ resp.images
    hasMore := resp.hasMore, loading := false }
  | .error e => { s with error := some e, hasMore := false, loading := false }

def answer (id : Nat) : State :=
  match s.calls.find? (·.id = id) with
  | some ⟨_, params, offset, some image⟩ =>
    let returned := { s with calls := s.calls.filter (·.id ≠ id) }
    if s.reqId = id then returned.merge boxHeight (server id ⟨params, image, offset⟩) else returned
  | _ => s

end State

def step (s : State) : Input → State
  | .navigate query => { s with url := readParams query }
  | .hand image => { s with imgQuery := some image, handed := true }
  | .react => s.react
  | .scroll => s.scroll
  | .resize count columnWidth => { s with columns := reflow boxHeight s.columns count columnWidth }
  | .launch id => s.launch id
  | .answer id => s.answer boxHeight server id

/-- After the first pass of the layout, with the effect of the params still to run. -/
def initial (query : String → Option String) (imgQuery : Option String) (count columnWidth : Nat) : State where
  url := readParams query
  params := readParams query
  stale := true
  imgQuery
  handed := false
  columns := reflow boxHeight [] count columnWidth
  images := []
  offset := 0
  hasMore := true
  loading := false
  error := none
  reqId := 0
  calls := []

def machine (query : String → Option String) (imgQuery : Option String) (count columnWidth : Nat) :
    Machine State Input Unit where
  initial := initial boxHeight query imgQuery count columnWidth
  step s input := ((), step boxHeight server s input)

end Run
end LetsEmbed.Results
