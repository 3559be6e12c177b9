import Mathlib.Data.List.Sort
import LetsEmbed.Db
import LetsEmbed.Pipeline

/-! What the writes of `record` do to the database (`embed/src/cli.rs`): up to four
statements each, every one a transaction of its own under READ COMMITTED, next to the
statements of other writes, claims and imports. A statement takes its rows one by one,
waits for whoever has a row, and shows its effect at the end. What foreign keys point to
is only shared, and nobody else wants it whole. -/

namespace LetsEmbed.Record
open Systems Pipeline

variable {Tensor Score Half : Type}

/-- How the database sorts text. Ties are broken, so equal is the same. -/
structure Collation where
  le : String → String → Bool
  trans : ∀ a b c, le a b = true → le b c = true → le a c = true
  total : ∀ a b, (le a b || le b a) = true
  antisymm : ∀ a b, le a b = true → le b a = true → a = b

inductive Statement where
  | insertTags
  | upsertLinks
  | completeImages
  | resetImages
  deriving DecidableEq

structure WdTag where
  id : Nat
  name : String
  deriving DecidableEq

structure WdTagImage (Score : Type) where
  wdTag : Nat
  image : Int
  score : Score

/-- What a statement is about to insert or update. An image comes with the place of its
entry in the arrays. -/
inductive Item (Score : Type) where
  | tag (name : String)
  | link (row : WdTagImage Score)
  | image (id : Int) (entry : Nat)

/-- What it has inserted or updated, for itself so far. -/
inductive Row (Score : Type) where
  | tag (row : WdTag)
  | link (row : WdTagImage Score)
  | image (id : Int) (entry : Nat)

inductive Key where
  | tag (name : String)
  | link (wdTag : Nat) (image : Int)
  | image (id : Int)
  deriving DecidableEq

def Row.key : Row Score → Key
  | .tag row => .tag row.name
  | .link row => .link row.wdTag row.image
  | .image id _ => .image id

/-- `VARCHAR(100)`. -/
def nameLimit : Nat := 100

/-- The row of an item, with the next id where it is new; none where it does not fit. -/
def Item.row (id : Nat) : Item Score → Option (Row Score)
  | .tag name => (Db.assign nameLimit name).map fun stored => .tag ⟨id, stored⟩
  | .link row => some (.link row)
  | .image id entry => some (.image id entry)

structure Tables (Score Half : Type) where
  wdTags : List WdTag
  wdTagImages : List (WdTagImage Score)
  images : Int → Option (Stored Half)
  nextTag : Nat

def Tables.tagged (tables : Tables Score Half) (name : String) : List WdTag := tables.wdTags.filter (·.name = name)

inductive Stage (Score : Type) where
  | ready (rest : List Statement)
  | running (statement : Statement) (pending : List (Item Score)) (held : List (Row Score)) (rest : List Statement)
  | failed

def Stage.isOver : Stage Score → Bool
  | .ready [] | .failed => true
  | _ => false

def Stage.held : Stage Score → List (Row Score)
  | .running _ _ held _ => held
  | _ => []

/-- A write: the results it was spawned with, and how far it is. -/
structure Session (Tensor Score : Type) where
  res : List (Int × Option (Inferred Tensor Score))
  stage : Stage Score

/-- Statements with nothing to write are skipped. -/
def statements (write : Write Score Half) : List Statement :=
  (if write.tagNames.isEmpty then [] else [.insertTags, .upsertLinks]) ++
    (if write.completedIds.isEmpty then [] else [.completeImages]) ++
    (if write.failedIds.isEmpty then [] else [.resetImages])

def tagItems (collation : Collation) (write : Write Score Half) : List String :=
  ((write.tagNames.filter (!Db.blank ·)).dedup).insertionSort fun a b => collation.le a b = true

def linkItems (tables : Tables Score Half) (write : Write Score Half) : List (WdTagImage Score) :=
  (write.wdIds.zip (write.tagNames.zip write.scores)).flatMap fun (id, name, score) =>
    (tables.tagged name).map fun tag => ⟨tag.id, id, score⟩

def imageItems (tables : Tables Score Half) (ids : List Int) : List (Int × Nat) :=
  ids.zipIdx.filter fun (id, _) => (tables.images id).isSome

/-- What a statement finds to do in the tables as of its start. -/
def items (collation : Collation) (tables : Tables Score Half) (write : Write Score Half) : Statement → List (Item Score)
  | .insertTags => (tagItems collation write).map .tag
  | .upsertLinks => (linkItems tables write).map .link
  | .completeImages => (imageItems tables write.completedIds).map fun (id, entry) => .image id entry
  | .resetImages => (imageItems tables write.failedIds).map fun (id, entry) => .image id entry

namespace Tables
variable (tables : Tables Score Half)

def upsert (links : List (WdTagImage Score)) (row : WdTagImage Score) : List (WdTagImage Score) :=
  if links.any fun link => link.wdTag = row.wdTag ∧ link.image = row.image then
    links.map fun link => if link.wdTag = row.wdTag ∧ link.image = row.image then row else link
  else links ++ [row]

def store (statement : Statement) (write : Write Score Half) (entry : Nat) (stored : Stored Half) : Stored Half :=
  match statement with
  | .completeImages => ⟨.completed, write.clipEmbeddings[entry]?, write.dinoEmbeddings[entry]?⟩
  | _ => { stored with status := .pending }

def put (statement : Statement) (write : Write Score Half) (tables : Tables Score Half) : Row Score → Tables Score Half
  | .tag row => { tables with wdTags := tables.wdTags ++ [row] }
  | .link row => { tables with wdTagImages := upsert tables.wdTagImages row }
  | .image id entry =>
    { tables with images := Function.update tables.images id ((tables.images id).map (store statement write entry)) }

end Tables

/-- What a row references is there. -/
def Row.referenced (tables : Tables Score Half) : Row Score → Bool
  | .link row => (tables.images row.image).isSome
  | _ => true

structure State (Tensor Score Half : Type) where
  tables : Tables Score Half
  sessions : List (Session Tensor Score)

inductive Input (Tensor Score : Type) where
  | start (res : List (Int × Option (Inferred Tensor Score)))
  | advance (session : Nat) (pick : Nat)
  | fail (session : Nat)
  | claim (ids : List Int)
  | arrive (id : Int)

namespace State
variable (collation : Collation) (half : Tensor → Half) (s : State Tensor Score Half)

/-- Somebody else has the row. -/
def locked (session : Nat) (key : Key) : Bool :=
  (List.range s.sessions.length).any fun other =>
    other ≠ session && s.sessions[other]?.any fun found => found.stage.held.any (·.key = key)

def stage (session : Nat) (found : Session Tensor Score) (stage : Stage Score) : State Tensor Score Half :=
  { s with sessions := s.sessions.set session { found with stage } }

def begin (session : Nat) (found : Session Tensor Score) (statement : Statement) (rest : List Statement) :
    State Tensor Score Half :=
  s.stage session found (.running statement (items collation s.tables (record half found.res) statement) [] rest)

/-- `DO NOTHING` about a tag that is there. A link cannot be set twice, and an image only
once is. -/
def take (session : Nat) (found : Session Tensor Score) (statement : Statement) (pending : List (Item Score))
    (held : List (Row Score)) (rest : List Statement) : Option (Row Score) → State Tensor Score Half
  | none => s.stage session found .failed
  | some row =>
    if held.any (·.key = row.key) then
      s.stage session found (if statement = .upsertLinks then .failed else .running statement pending held rest)
    else if s.tables.wdTags.any (row.key = .tag ·.name) then s.stage session found (.running statement pending held rest)
    else if s.locked session row.key then s
    else
      let tables := if statement = .insertTags then { s.tables with nextTag := s.tables.nextTag + 1 } else s.tables
      { s.stage session found (.running statement pending (held ++ [row]) rest) with tables }

def commit (session : Nat) (found : Session Tensor Score) (statement : Statement) (held : List (Row Score))
    (rest : List Statement) : State Tensor Score Half :=
  if held.all (Row.referenced s.tables) then
    { s.stage session found (.ready rest) with
      tables := held.foldl (Tables.put statement (record half found.res)) s.tables }
  else s.stage session found .failed

/-- Tag names are in order; otherwise the database picks what comes next. -/
def advance (session pick : Nat) : State Tensor Score Half :=
  match s.sessions[session]? with
  | none => s
  | some found =>
    match found.stage with
    | .ready (statement :: rest) => s.begin collation half session found statement rest
    | .running statement [] held rest => s.commit half session found statement held rest
    | .running statement pending held rest =>
      let place := if statement = .insertTags then 0 else pick
      match pending[place]? with
      | none => s
      | some item => s.take session found statement (pending.eraseIdx place) held rest (item.row s.tables.nextTag)
    | _ => s

/-- An error or a lost connection: what the statement had so far is undone. -/
def fail (session : Nat) : State Tensor Score Half :=
  match s.sessions[session]? with
  | none => s
  | some found => if found.stage.isOver then s else s.stage session found .failed

/-- `FOR UPDATE SKIP LOCKED`. -/
def claim (ids : List Int) : State Tensor Score Half :=
  let images id := (s.tables.images id).map fun stored =>
    if id ∈ ids ∧ stored.status ≠ .completed ∧ !s.locked s.sessions.length (.image id) then { stored with status := .processing }
    else stored
  { s with tables := { s.tables with images } }

/-- Images come in with `upsert_metas`. -/
def arrive (id : Int) : State Tensor Score Half :=
  let images := Function.update s.tables.images id (some ((s.tables.images id).getD ⟨.pending, none, none⟩))
  { s with tables := { s.tables with images } }

end State

def step (collation : Collation) (half : Tensor → Half) (s : State Tensor Score Half) :
    Input Tensor Score → State Tensor Score Half
  | .start res => { s with sessions := s.sessions ++ [⟨res, .ready (statements (record half res))⟩] }
  | .advance session pick => s.advance collation half session pick
  | .fail session => s.fail session
  | .claim ids => s.claim ids
  | .arrive id => s.arrive id

def machine (collation : Collation) (half : Tensor → Half) (start : Tables Score Half) :
    Machine (State Tensor Score Half) (Input Tensor Score) Unit :=
  ⟨⟨start, []⟩, fun s input => ((), step collation half s input)⟩

end LetsEmbed.Record
