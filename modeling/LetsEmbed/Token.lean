import LetsEmbed.Gateway
import LetsEmbed.Session

/-! Session tokens, `base64url(payload).base64url(hmac)`: signed and read by the
user worker (`user_worker/src/session.rs`), and read by the gateway with code of
its own (`gateway_worker/src/lib.rs`). -/

namespace LetsEmbed

namespace Session
open Text

structure SessionClaims where
  sub : String
  iat : Nat
  exp : Nat
  deriving DecidableEq

/-- Base64url without padding, JSON of the claims and HMAC-SHA256. -/
structure Crates where
  b64Encode : List UInt8 → String
  b64Decode : String → Option (List UInt8)
  toVec : SessionClaims → List UInt8
  fromSlice : List UInt8 → Option SessionClaims
  hmacSha256 : (secret data : List UInt8) → List UInt8

variable (crates : Crates)

def jwtSign (c : SessionClaims) (secret : List UInt8) : String :=
  let payload := crates.b64Encode (crates.toVec c)
  let sig := crates.b64Encode (crates.hmacSha256 secret (bytes payload))
  payload ++ "." ++ sig

def jwtVerify (token : String) (secret : List UInt8) (now : Nat) : Option SessionClaims := do
  let (payload, sig) ← splitOnce '.' token
  let sig ← crates.b64Decode sig
  guard (sig = crates.hmacSha256 secret (bytes payload))
  let json ← crates.b64Decode payload
  let c ← crates.fromSlice json
  if c.exp ≥ now ∧ isValidPrincipal c.sub then some c else none

end Session

namespace Gateway
open Text

def isEthAddress (s : String) : Bool :=
  match stripPrefix "0x" s with
  | some digits => digits.toList.length == 40 && digits.toList.all isLowerHexDigit
  | none => false

def isSolPrincipal (s : String) : Bool :=
  decide (32 ≤ byteLength s ∧ byteLength s ≤ 44) && (Session.base58Decode s).any (·.length == 32)

def isValidPrincipal (s : String) : Bool := isEthAddress s || isSolPrincipal s

/-- The gateway declares the claims once more, field by field. -/
def fromSlice (crates : Session.Crates) (json : List UInt8) : Option SessionClaims :=
  (crates.fromSlice json).map fun c => ⟨c.sub, c.iat, c.exp⟩

/-- The principals keep out tokens of an older kind under the same secret. -/
def jwtVerify (crates : Session.Crates) (token : String) (secret : List UInt8) (now : Nat) : Option SessionClaims := do
  let (payload, sig) ← splitOnce '.' token
  let sig ← crates.b64Decode sig
  guard (sig = crates.hmacSha256 secret (bytes payload))
  let json ← crates.b64Decode payload
  let c ← fromSlice crates json
  if c.exp ≥ now ∧ isValidPrincipal c.sub then some c else none

end Gateway
end LetsEmbed
