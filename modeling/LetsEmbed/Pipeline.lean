import LetsEmbed.Convert
import LetsEmbed.Embed

/-! The way of claimed images through the embedding pipeline (`embed/src/cli.rs`):
downloaded and decoded one by one, inferred in batches, and written in groups of
batches. Tickets and metrics are left out. -/

namespace LetsEmbed.Pipeline
open Systems

inductive TagType where
  | general
  | character
  deriving DecidableEq

structure Tag where
  type : TagType
  name : String
  deriving DecidableEq

/-- `Tensor` is what the models take and what they embed an image as, `Half` its
halved precision. -/
structure Crates (Bytes Tensor Half : Type) where
  read : String → Option Bytes
  wdConvert : Bytes → Option Tensor
  clipConvert : Bytes → Option Tensor
  dinoConvert : Bytes → Option Tensor
  half : Tensor → Half

variable {Bytes Tensor Score Half : Type}

abbrev Decoded (Tensor : Type) := Tensor × Tensor × Tensor

abbrev Inferred (Tensor Score : Type) := List (Tag × Score) × Tensor × Tensor

/-- A claimed image. Whether its download fails and whether decoding it panics are
for the run to say. -/
structure Image where
  id : Int
  name : String
  unread : Bool
  panicked : Bool

def convertImage (crates : Crates Bytes Tensor Half) (image : Image) : Option (Decoded Tensor) :=
  if image.unread || image.panicked then none
  else do
    let buf ← crates.read (Convert.imageObject image.name)
    let wd ← crates.wdConvert buf
    let clip ← crates.clipConvert buf
    let dino ← crates.dinoConvert buf
    pure (wd, clip, dino)

structure Parts (Tensor : Type) where
  someIds : List Int := []
  wdImages : List Tensor := []
  clipImages : List Tensor := []
  dinoImages : List Tensor := []
  noneIds : List Int := []

def Parts.push (parts : Parts Tensor) : Int × Option (Decoded Tensor) → Parts Tensor
  | (id, some (a, b, c)) => { parts with
    someIds := parts.someIds ++ [id], wdImages := parts.wdImages ++ [a], clipImages := parts.clipImages ++ [b],
    dinoImages := parts.dinoImages ++ [c] }
  | (id, none) => { parts with noneIds := parts.noneIds ++ [id] }

/-- The three model calls of a batch. -/
structure Calls (Tensor Score : Type) where
  inferTag : List Tensor → Option (List (List (Tag × Score)))
  clipVision : List Tensor → Option (List Tensor)
  dinoVision : List Tensor → Option (List Tensor)

/-- `zip` with a list that goes on with `None` forever. -/
def zipRepeat {α β : Type} : List α → List β → List (α × Option β)
  | [], _ => []
  | a :: rest, [] => (a, none) :: zipRepeat rest []
  | a :: rest, b :: more => (a, some b) :: zipRepeat rest more

def infer (calls : Calls Tensor Score) (images : List (Int × Option (Decoded Tensor))) :
    List (Int × Option (Inferred Tensor Score)) :=
  let parts := images.foldl Parts.push {}
  if parts.someIds.isEmpty then zipRepeat parts.noneIds []
  else
    let res := do
      let tags ← calls.inferTag parts.wdImages
      let clipEmbeddings ← calls.clipVision parts.clipImages
      let dinoEmbeddings ← calls.dinoVision parts.dinoImages
      pure (tags, clipEmbeddings, dinoEmbeddings)
    match res with
    | some (wdRes, clipRes, dinoRes) =>
      zipRepeat (parts.someIds ++ parts.noneIds) (((wdRes.zip clipRes).zip dinoRes).map fun ((a, b), c) => (a, b, c))
    | none => zipRepeat (parts.someIds ++ parts.noneIds) []

/-- What one write sends along: parallel arrays for its three statements. -/
structure Write (Score Half : Type) where
  wdIds : List Int := []
  tagNames : List String := []
  scores : List Score := []
  completedIds : List Int := []
  clipEmbeddings : List Half := []
  dinoEmbeddings : List Half := []
  failedIds : List Int := []

def Write.push (half : Tensor → Half) (write : Write Score Half) :
    Int × Option (Inferred Tensor Score) → Write Score Half
  | (id, some (tags, clip, dino)) => { write with
    wdIds := write.wdIds ++ tags.map fun _ => id
    tagNames := write.tagNames ++ tags.map (·.1.name)
    scores := write.scores ++ tags.map (·.2)
    completedIds := write.completedIds ++ [id]
    clipEmbeddings := write.clipEmbeddings ++ [half clip]
    dinoEmbeddings := write.dinoEmbeddings ++ [half dino] }
  | (id, none) => { write with failedIds := write.failedIds ++ [id] }

def record (half : Tensor → Half) (res : List (Int × Option (Inferred Tensor Score))) : Write Score Half :=
  res.foldl (Write.push half) {}

/-- What a write sets of an image. -/
structure Stored (Half : Type) where
  status : Embed.ProcessStatus
  clipEmbedding : Option Half
  dinoEmbedding : Option Half

/-- The statement that completes images. Of several entries for a row it takes any
one, and the shorter arrays go on with `NULL`. -/
def Write.Completes (write : Write Score Half) (before after : Int → Option (Stored Half)) : Prop :=
  ∀ id, id ∉ write.completedIds ∧ after id = before id ∨ ∃ i : Nat, write.completedIds[i]? = some id ∧
    after id = (before id).map fun _ => ⟨.completed, write.clipEmbeddings[i]?, write.dinoEmbeddings[i]?⟩

def Write.reset (write : Write Score Half) (images : Int → Option (Stored Half)) : Int → Option (Stored Half) := fun id =>
  if id ∈ write.failedIds then (images id).map ({ · with status := .pending }) else images id

def coalesce : Nat := 16

/-- The images of a batch and its calls. -/
structure Batch (Tensor Score : Type) where
  images : List Image
  calls : Calls Tensor Score

def Batch.res (crates : Crates Bytes Tensor Half) (batch : Batch Tensor Score) :
    List (Int × Option (Inferred Tensor Score)) :=
  infer batch.calls (batch.images.map fun image => (image.id, convertImage crates image))

/-- What waits before `infer` and before `record`, and the groups of batches that
were written. -/
structure State (Tensor Score : Type) where
  decoded : List Image := []
  inferred : List (Batch Tensor Score) := []
  written : List (List (Batch Tensor Score)) := []

/-- Both stages take what is there when they look, at least one and up to their
limit. -/
inductive Input (Tensor Score : Type) where
  | arrive (image : Image)
  | infer (ready : Nat) (calls : Calls Tensor Score)
  | record (ready : Nat)

def step (batchSize : Nat) (s : State Tensor Score) : Input Tensor Score → State Tensor Score
  | .arrive image => { s with decoded := s.decoded ++ [image] }
  | .infer ready calls =>
    let taken := 1 + min ready (batchSize - 1)
    if s.decoded.isEmpty then s
    else { s with decoded := s.decoded.drop taken, inferred := s.inferred ++ [⟨s.decoded.take taken, calls⟩] }
  | .record ready =>
    let taken := 1 + min ready (coalesce - 1)
    if s.inferred.isEmpty then s
    else { s with inferred := s.inferred.drop taken, written := s.written ++ [s.inferred.take taken] }

def machine (batchSize : Nat) : Machine (State Tensor Score) (Input Tensor Score) Unit where
  initial := {}
  step s input := ((), step batchSize s input)

end LetsEmbed.Pipeline
