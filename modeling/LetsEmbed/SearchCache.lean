import LetsEmbed.SearchEngine
import LetsEmbed.Systems.Memo
import LetsEmbed.Systems.SipHash
import LetsEmbed.Text

/-! Searches by vectors (`search_engine/src/lib.rs`). The cached ones look the vector up
under a hash of the question; the models and the order by distance are left open. -/

namespace LetsEmbed.SearchEngine
open Results (Image)
open Systems Text

/-- What the models make of a text or a picture, and all images by their distance from
that. -/
structure Models (V : Type) where
  clipEmbedding : (describes : List String) → Except String V
  dinov3Embedding : (images : List (List UInt8)) → Except String V
  byClip : V → List Image
  byDinov3 : V → List Image

/-- `usize` is written in eight bytes, the least first. -/
def hashUsize (n : Nat) : List UInt8 := (List.range 8).map fun i => UInt8.ofNat (n / 256 ^ i)

/-- `DefaultHasher`, which has a fixed key. -/
def defaultHash (written : List UInt8) : UInt64 := SipHash.hash 0 0 written

/-- A vector starts with its length, a string ends in a byte that is not in one. -/
def describesHash (describes : List String) : UInt64 :=
  defaultHash (hashUsize describes.length ++ describes.flatMap fun s => bytes s ++ [0xFF])

def imagesHash (images : List (List UInt8)) : UInt64 :=
  defaultHash (hashUsize images.length ++ images.flatMap fun buf => hashUsize buf.length ++ buf)

example : defaultHash [] = 15130871412783076140 := by decide +kernel

namespace Models
variable {V : Type} (m : Models V)

def searchClipInner (embedding : V) (limit offset : Int) : Except String (List Image) :=
  Engine.window (m.byClip embedding) limit offset

def searchDinov3Inner (embedding : V) (limit offset : Int) : Except String (List Image) :=
  Engine.window (m.byDinov3 embedding) limit offset

def searchClip (describes : List String) (limit offset : Int) : Except String (List Image) := do
  let embedding ← m.clipEmbedding describes
  m.searchClipInner embedding limit offset

def searchDinov3 (images : List (List UInt8)) (limit offset : Int) : Except String (List Image) := do
  let embedding ← m.dinov3Embedding images
  m.searchDinov3Inner embedding limit offset

/-- The cache of `search_clip_cached`, shared by all calls. -/
def clipCache := Memo.machine describesHash m.clipEmbedding

/-- The cache of `search_dinov3_cached`, shared by all calls. -/
def dinov3Cache := Memo.machine imagesHash m.dinov3Embedding

/-- What is left to do once the cache has answered. -/
def searchClipCached (answer : Except String V) (limit offset : Int) : Except String (List Image) := do
  let embedding ← answer
  m.searchClipInner embedding limit offset

def searchDinov3Cached (answer : Except String V) (limit offset : Int) : Except String (List Image) := do
  let embedding ← answer
  m.searchDinov3Inner embedding limit offset

end Models
end LetsEmbed.SearchEngine
