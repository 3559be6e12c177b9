/-! SipHash-1-3, on bytes and with a key of two words. -/

namespace Systems.SipHash

structure State where
  v0 : UInt64
  v1 : UInt64
  v2 : UInt64
  v3 : UInt64

def rotl (x n : UInt64) : UInt64 := (x <<< n) ||| (x >>> (64 - n))

def round (s : State) : State :=
  let v0 := s.v0 + s.v1
  let v2 := s.v2 + s.v3
  let v1 := rotl s.v1 13 ^^^ v0
  let v3 := rotl s.v3 16 ^^^ v2
  let v0 := rotl v0 32
  let v0 := v0 + v3
  let v2 := v2 + v1
  let v3 := rotl v3 21 ^^^ v0
  let v1 := rotl v1 17 ^^^ v2
  let v2 := rotl v2 32
  ⟨v0, v1, v2, v3⟩

/-- Little-endian. -/
def word (bytes : List UInt8) : UInt64 := bytes.foldr (fun b rest => (rest <<< 8) ||| b.toUInt64) 0

def compress (s : State) (m : UInt64) : State :=
  let s := round { s with v3 := s.v3 ^^^ m }
  { s with v0 := s.v0 ^^^ m }

/-- Whole words, and the bytes that are left. -/
def absorb (s : State) : List UInt8 → State × List UInt8
  | a :: b :: c :: d :: e :: f :: g :: h :: rest => absorb (compress s (word [a, b, c, d, e, f, g, h])) rest
  | rest => (s, rest)

def start (k0 k1 : UInt64) : State :=
  ⟨k0 ^^^ 0x736f6d6570736575, k1 ^^^ 0x646f72616e646f6d, k0 ^^^ 0x6c7967656e657261, k1 ^^^ 0x7465646279746573⟩

/-- The last word holds the length of the message above the bytes that are left. -/
def hash (k0 k1 : UInt64) (message : List UInt8) : UInt64 :=
  let (s, rest) := absorb (start k0 k1) message
  let s := compress s (word rest ||| (UInt64.ofNat message.length <<< 56))
  let s := round (round (round { s with v2 := s.v2 ^^^ 0xff }))
  s.v0 ^^^ s.v1 ^^^ s.v2 ^^^ s.v3

end Systems.SipHash
