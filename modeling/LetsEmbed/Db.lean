import LetsEmbed.Systems.Isolation

/-! Imports of metadata (`db/src/lib.rs`, `upsert_metas`): one statement that inserts
posts, images, authors and tags, and links each post of its input to the rest.
Its expressions read the tables as of its start; what it inserts itself comes to
them through `RETURNING` only. -/

namespace LetsEmbed.Db
open Systems

structure Image where
  name : String
  width : Int
  height : Int
  deriving DecidableEq

structure Meta where
  title : String
  authors : List String
  tags : List String
  images : List Image
  deriving DecidableEq

/-- The tables `posts`, `images`, `authors` and `tags`, each unique by title or name. -/
inductive Entity where
  | post
  | image
  | author
  | tag
  deriving DecidableEq

/-- The length of the column that is unique. -/
def Entity.limit : Entity → Nat
  | .post | .image => 255
  | .author | .tag => 100

def Meta.names (m : Meta) : Entity → List String
  | .post => [m.title]
  | .image => m.images.map (·.name)
  | .author => m.authors
  | .tag => m.tags

/-- `trim` takes away spaces, and nothing else. -/
def blank (s : String) : Bool := s.toList.all (· = ' ')

/-- What a column of this length stores: excess characters have to be spaces. -/
def assign (limit : Nat) (s : String) : Option String :=
  if s.toList.length ≤ limit then some s
  else if (s.toList.drop limit).all (· = ' ') then some (String.ofList (s.toList.take limit))
  else none

/-- An image is stored with a size; nothing else has one. -/
abbrev Size := Option (Int × Int)

abbrev Key := Entity × String

abbrev Row := Isolation.Row Key Size

/-- A row of `post_images`, `author_posts` or `tag_posts`. -/
structure Link where
  entity : Entity
  post : Nat
  other : Nat
  deriving DecidableEq

def listed (input : List Meta) (entity : Entity) : List String := input.flatMap (·.names entity)

/-- `ins_posts`, `ins_images`, `ins_authors` and `ins_tags`, of which the last is not
distinct; they are ordered by name, which is left open here. -/
def inserted (input : List Meta) (entity : Entity) : List String :=
  let names := (listed input entity).filter (!blank ·)
  if entity = .tag then names else names.dedup

def wanted (input : List Meta) : List Key :=
  [.post, .image, .author, .tag].flatMap fun entity => (inserted input entity).map (entity, ·)

/-- `DISTINCT ON (name)` takes the size of any image of that name; both sides are
checked to be positive. -/
def offered (input : List Meta) (name : String) : Size → Bool
  | some (width, height) => 0 < width && 0 < height && (input.flatMap (·.images)).any (· = ⟨name, width, height⟩)
  | none => false

def stored (input : List Meta) (key : Key) (size : Size) : Option (Key × Size) :=
  if (if key.1 = .image then offered input key.2 size else size.isNone) then
    (assign key.1.limit key.2).map fun name => ((key.1, name), size)
  else none

/-- The expressions `posts`, `images`, `authors` and `tags`, which hide the tables
they are named after. -/
def visible (input : List Meta) (entity : Entity) (returned snapshot : List Row) : List Row :=
  returned.filter (·.key.1 = entity) ++
    snapshot.filter fun row => row.key.1 = entity ∧ row.key.2 ∈ listed input entity

def joined (rows : List Row) (name : String) : List Row := rows.filter (·.key.2 = name)

/-- What is inserted into `post_images`, `author_posts` and `tag_posts`. -/
def links (input : List Meta) (returned snapshot : List Row) : List Link :=
  [.image, .author, .tag].flatMap fun entity =>
    input.flatMap fun i => (joined (visible input .post returned snapshot) i.title).flatMap fun post =>
      (i.names entity).flatMap fun name =>
        (joined (visible input entity returned snapshot) name).map fun other => ⟨entity, post.id, other.id⟩

def upsertMetas : Isolation.Statement (List Meta) Key Size Link := ⟨wanted, stored, links⟩

abbrev State := Isolation.State (List Meta) Key Size Link

/-- Calls of `upsert_metas` on one database, each in a transaction of its own. -/
def machine (start : State) := Isolation.machine upsertMetas start

end LetsEmbed.Db
