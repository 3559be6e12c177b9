import LetsEmbed.Record
import LetsEmbed.SearchTables

/-! Translations of tags (`db/src/lib.rs`, `upsert_translations`), imported while embeddings
are recorded, and what the search engine reads of both. -/

namespace LetsEmbed.Translations
open Systems

variable {Tensor Score Half : Type}

structure Translation where
  name : String
  translations : List String

/-- `btrim` takes spaces away on both sides. -/
def btrim (s : String) : String :=
  String.ofList ((s.toList.dropWhile (· = ' ')).reverse.dropWhile (· = ' ')).reverse

/-- `VARCHAR(100)`. -/
def textLimit : Nat := 100

/-- What the statement selects from its input and the tags there are. -/
def selected (tags : List Record.WdTag) (given : List Translation) : List (Nat × String) :=
  given.flatMap fun v => (tags.filter (·.name = v.name)).flatMap fun t =>
    ((v.translations.map btrim).filter (· ≠ "")).map (t.id, ·)

/-- The rows it inserts, unless one of them does not fit. -/
def rows (tags : List Record.WdTag) (given : List Translation) : Option (List (Nat × String)) :=
  (selected tags given).mapM fun row => (Db.assign textLimit row.2).map (row.1, ·)

/-- `ON CONFLICT DO NOTHING`. -/
def insert (table added : List (Nat × String)) : List (Nat × String) :=
  added.foldl (fun table row => if row ∈ table then table else table ++ [row]) table

/-- The database with the imports that are under way, each with the rows it is going to
insert. -/
structure State (Tensor Score Half : Type) where
  db : Record.State Tensor Score Half
  imports : List (List (Nat × String))
  table : List (Nat × String)

inductive Input (Tensor Score : Type) where
  | record (input : Record.Input Tensor Score)
  | upsertTranslations (given : List Translation)
  | commit (i : Nat)
  | abort (i : Nat)

def step (collation : Record.Collation) (half : Tensor → Half) (s : State Tensor Score Half) :
    Input Tensor Score → State Tensor Score Half
  | .record input => { s with db := Record.step collation half s.db input }
  | .upsertTranslations given =>
    match rows s.db.tables.wdTags given with
    | some added => { s with imports := s.imports ++ [added] }
    | none => s
  | .commit i =>
    match s.imports[i]? with
    | some added => { s with imports := s.imports.eraseIdx i, table := insert s.table added }
    | none => s
  | .abort i => { s with imports := s.imports.eraseIdx i }

def empty : State Tensor Score Half := ⟨⟨⟨[], [], fun _ => none, 1⟩, []⟩, [], []⟩

def machine (collation : Record.Collation) (half : Tensor → Half) :
    Machine (State Tensor Score Half) (Input Tensor Score) Unit :=
  ⟨empty, fun s input => ((), step collation half s input)⟩

/-- The search engine on this database. -/
structure Reads (s : State Tensor Score Half) (t : SearchEngine.Tables Score) : Prop where
  wdTags : t.wdTags = s.db.tables.wdTags.map fun tag => ⟨tag.id, tag.name⟩
  wdTagImages : t.wdTagImages = s.db.tables.wdTagImages.map fun link => ⟨link.wdTag, link.image, link.score⟩
  wdTagTranslations : t.wdTagTranslations = s.table.map fun row => ⟨row.1, row.2⟩

end LetsEmbed.Translations
