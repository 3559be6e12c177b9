import LetsEmbed.Systems.Machine
import LetsEmbed.Text
import Mathlib.Logic.Function.Basic

/-! Converting the images of a store to WebP (`img2webp/src/lib.rs`). The images
are worked on side by side, each in the order of its own steps, and the one that
fails on the way is left out. An object is the picture it shows. -/

namespace LetsEmbed.Convert
open Systems Text

structure Entry where
  path : String
  isFile : Bool

/-- `mimeTypes` are the top-level types guessed from the path. -/
def selects (mimeTypes : String → List String) (entry : Entry) : Bool :=
  entry.isFile && !endsWith entry.path ".webp" &&
    ((mimeTypes entry.path).isEmpty || (mimeTypes entry.path).any (· = "image"))

def selected (mimeTypes : String → List String) (entries : List Entry) : List String :=
  (entries.filter (selects mimeTypes)).map (·.path)

def extensions : List String := ["jpg", "jpeg", "png", "gif", "bmp", "webp", "tiff", "svg", "ico", "heic"]

/-- The object an image is written to, and its key in the metadata. -/
def destination (path : String) : String × String :=
  match rsplitOnce '.' path with
  | some (pre, ext) => if ext ∈ extensions then (pre ++ ".webp", pre) else (path ++ ".webp", path)
  | none => (path ++ ".webp", path)

/-- The object the embedding reads for a name (`embed/src/cli.rs`). -/
def imageObject (name : String) : String := name ++ ".webp"

/-- Both operators may be the same. -/
structure Setup (Place : Type) where
  src : Place
  dst : Place
  deleteOrigin : Bool

abbrev Objects (Place ι : Type) := Place → String → Option ι

inductive Phase (ι : Type) where
  | waiting
  | loaded (image : ι)
  | written
  | deleted
  | ended

structure State (Place ι : Type) where
  objects : Objects Place ι
  phase : String → Phase ι
  metas : List (String × String)

/-- A call that fails may have taken effect. -/
inductive Action where
  | read (path : String)
  | write (path : String) (acknowledged : Bool)
  | delete (path : String) (acknowledged : Bool)
  | finish (path : String)

section Walk
variable {Place ι : Type} [DecidableEq Place] (setup : Setup Place) (paths : List String)

def Objects.put (objects : Objects Place ι) (place : Place) (name : String) (content : Option ι) : Objects Place ι :=
  fun other key => if other = place ∧ key = name then content else objects other key

def State.become (s : State Place ι) (path : String) (phase : Phase ι) : State Place ι :=
  { s with phase := Function.update s.phase path phase }

def State.finish (s : State Place ι) (path : String) : State Place ι :=
  { s.become path .ended with metas := destination path :: s.metas }

def step (s : State Place ι) : Action → State Place ι
  | .read path =>
    match s.phase path, s.objects setup.src path with
    | .waiting, some image => if path ∈ paths then s.become path (.loaded image) else s
    | _, _ => s
  | .write path acknowledged =>
    match s.phase path with
    | .loaded image =>
      { s.become path (if acknowledged then .written else .ended) with
        objects := s.objects.put setup.dst (destination path).1 (some image) }
    | _ => s
  | .delete path acknowledged =>
    match s.phase path with
    | .written =>
      if setup.deleteOrigin then
        { s.become path (if acknowledged then .deleted else .ended) with objects := s.objects.put setup.src path none }
      else s
    | _ => s
  | .finish path =>
    match s.phase path with
    | .written => if setup.deleteOrigin then s else s.finish path
    | .deleted => s.finish path
    | _ => s

def machine (objects : Objects Place ι) : Machine (State Place ι) Action Unit where
  initial := ⟨objects, fun _ => .waiting, []⟩
  step s action := ((), step setup paths s action)

end Walk
end LetsEmbed.Convert
