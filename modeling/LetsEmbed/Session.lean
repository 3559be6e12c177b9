import LetsEmbed.Text
import Mathlib.Data.Nat.Digits.Defs

/-! Session principals (`user_worker/src/session.rs`): an Ethereum address or
a Solana public key, both kept as text. -/

namespace LetsEmbed.Session
open Text

def base58Alphabet : List Char := "123456789ABCDEFGHJKLMNPQRSTUVWXYZabcdefghijkmnopqrstuvwxyz".toList

/-- Standard base58: leading ones are zero bytes, the rest is a big-endian number. -/
def base58Decode (s : String) : Option (List Nat) :=
  (s.toList.mapM (base58Alphabet.idxOf? ·)).map fun digits =>
    List.replicate (digits.takeWhile (· == 0)).length 0 ++
      (Nat.digits 256 (digits.foldl (fun value digit => value * 58 + digit) 0)).reverse

def isEthAddress (s : String) : Bool :=
  match stripPrefix "0x" s with
  | some digits => digits.toList.length == 40 && digits.toList.all isLowerHexDigit
  | none => false

/-- There is no zero in the alphabet, so nothing in hex decodes as base58. -/
theorem base58Decode_hex {s digits : String} (hex : stripPrefix "0x" s = some digits) : base58Decode s = none := by
  have zero := stripPrefix_eq_some.mp hex
  rw [(by decide : "0x".toList = ['0', 'x']), List.cons_append] at zero
  have unknown : base58Alphabet.idxOf? '0' = none := by decide
  simp [base58Decode, zero, unknown]

def isSolPrincipal (s : String) : Bool :=
  decide (32 ≤ byteLength s ∧ byteLength s ≤ 44) && (base58Decode s).any (·.length == 32)

def isValidPrincipal (s : String) : Bool := isEthAddress s || isSolPrincipal s

end LetsEmbed.Session
