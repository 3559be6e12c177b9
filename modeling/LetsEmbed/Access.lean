import LetsEmbed.Json

/-! Tokens of Cloudflare Access: verified by the ingress (`gateway/src/jwt.rs`), and for
approvers by the user worker with code of its own (`user_worker/src/admin.rs`). -/

namespace LetsEmbed.Access
open Text

/-- Base64url without padding, JSON with the keys of its objects as they come, RSA keys
and RS256. -/
structure Crates (Key : Type) where
  b64Decode : String → Option (List UInt8)
  fromSlice : List UInt8 → Option Json
  publicKey : (n e : List UInt8) → Option Key
  verifySig : Key → (message sig : List UInt8) → Bool

structure Jwk where
  kid : String
  n : String
  e : String

/-- What is found for one field of a struct with these: nothing, or its value. A field
that comes twice is an error, and an array has to hold all fields in their order. -/
def slot (value : Json) (names : List String) (name : String) : Option (Option Json) :=
  match value with
  | .obj fields =>
    match fields.filter (·.1 = name) with
    | [] => some none
    | [field] => some (some field.2)
    | _ => none
  | .arr items => if items.length = names.length then some ((names.zip items).lookup name) else none
  | _ => none

def decodeU64 : Option Json → Option Nat
  | some (.unsigned value) => some value
  | _ => none

/-- An `Option<u64>`: missing and null are both `None`. -/
def decodeOptionalU64 : Option Json → Option (Option Nat)
  | none | some .null => some none
  | some (.unsigned value) => some (some value)
  | _ => none

def trimEndMatches (c : Char) (s : String) : String := String.ofList (s.toList.reverse.dropWhile (· == c)).reverse

variable {Key : Type} (crates : Crates Key)

namespace Gateway

abbrev KeyMap (Key : Type) := String → Option Key

/-- All keys or none; of one id the last one stays. -/
def initKeys (keys : List Jwk) : Option (KeyMap Key) := do
  let entries ← keys.mapM fun key => do
    let n ← crates.b64Decode key.n
    let e ← crates.b64Decode key.e
    pure (key.kid, ← crates.publicKey n e)
  pure fun kid => entries.reverse.lookup kid

structure JwtKeyInfo where
  alg : String
  kid : String

def decodeJwtKeyInfo (value : Json) : Option JwtKeyInfo := do
  let names := ["alg", "kid"]
  pure ⟨← Json.decodeString (← slot value names "alg"), ← Json.decodeString (← slot value names "kid")⟩

inductive Audience where
  | single (s : String)
  | multiple (v : List String)

def Audience.contains : Audience → String → Bool
  | .single s, expected => s == expected
  | .multiple v, expected => v.contains expected

def decodeAudience : Option Json → Option Audience
  | some (.str s) => some (.single s)
  | some (.arr items) => (items.mapM Json.asStr).map .multiple
  | _ => none

structure JwtClaim where
  aud : Audience
  exp : Nat
  iss : String

def decodeJwtClaim (value : Json) : Option JwtClaim := do
  let names := ["aud", "exp", "iss"]
  pure ⟨← decodeAudience (← slot value names "aud"), ← decodeU64 (← slot value names "exp"),
    ← Json.decodeString (← slot value names "iss")⟩

inductive Refusal where
  | bail (message : String)
  | base64
  | json
  | signature
  deriving DecidableEq

def orElse {α : Type} (refusal : Refusal) : Option α → Except Refusal α
  | some value => .ok value
  | none => .error refusal

def verify (team : Option String) (keys : Option (KeyMap Key)) (jwt : List UInt8) (expectedAud : String) (now : Nat) :
    Except Refusal Unit := do
  let team ← orElse (.bail "no team") team
  let keys ← orElse (.bail "no keys") keys
  match split '.' (fromUtf8Lossy jwt) with
  | [headerB64, claimB64, sigB64] => do
    let header ← orElse .base64 (crates.b64Decode headerB64)
    let info ← orElse .json ((crates.fromSlice header).bind decodeJwtKeyInfo)
    if info.alg ≠ "RS256" then .error (.bail "unsupport sign algorithm")
    else do
      let pubKey ← orElse (.bail "key id not found") (keys info.kid)
      let sig ← orElse .base64 (crates.b64Decode sigB64)
      if !crates.verifySig pubKey (bytes (headerB64 ++ "." ++ claimB64)) sig then .error .signature
      else do
        let claim ← orElse .base64 (crates.b64Decode claimB64)
        let claim ← orElse .json ((crates.fromSlice claim).bind decodeJwtClaim)
        if !claim.aud.contains expectedAud then .error (.bail "aud mismatch")
        else if claim.iss ≠ "https://" ++ team ++ ".cloudflareaccess.com" then .error (.bail "iss mismatch")
        else if claim.exp < now then .error (.bail "expired")
        else .ok ()
  | _ => .error (.bail "invalid jwt format")

end Gateway

namespace Worker

structure JwtHeader where
  kid : String
  alg : String

def decodeJwtHeader (value : Json) : Option JwtHeader := do
  let names := ["kid", "alg"]
  pure ⟨← Json.decodeString (← slot value names "kid"), ← Json.decodeString (← slot value names "alg")⟩

structure AccessClaims where
  aud : Json
  email : Option String
  iss : String
  exp : Nat
  nbf : Option Nat

def decodeAccessClaims (value : Json) : Option AccessClaims := do
  let names := ["aud", "email", "iss", "exp", "nbf"]
  pure ⟨← (← slot value names "aud"), ← Json.decodeOptional (← slot value names "email"),
    ← Json.decodeString (← slot value names "iss"), ← decodeU64 (← slot value names "exp"),
    ← decodeOptionalU64 (← slot value names "nbf")⟩

/-- The key of an id from what `load_jwks` gives without force, or else with it. -/
def findKey (cached fresh : Option (List Jwk)) (kid : String) : Option Key := do
  let j ← match (← cached).find? (·.kid = kid) with
    | some j => some j
    | none => (← fresh).find? (·.kid = kid)
  let n ← crates.b64Decode j.n
  let e ← crates.b64Decode j.e
  crates.publicKey n e

def audOk (expectedAud : String) : Json → Bool
  | .str a => a == expectedAud
  | .arr items => items.any fun v => v.asStr == some expectedAud
  | _ => false

def verifyAccessJwt (cached fresh : Option (List Jwk)) (token teamDomain expectedAud : String) (now : Nat) :
    Option AccessClaims :=
  match split '.' token with
  | [h, p, s] => do
    let header ← decodeJwtHeader (← crates.fromSlice (← crates.b64Decode h))
    guard (header.alg = "RS256")
    let key ← findKey crates cached fresh header.kid
    let sig ← crates.b64Decode s
    guard (crates.verifySig key (bytes (h ++ "." ++ p)) sig)
    let claims ← decodeAccessClaims (← crates.fromSlice (← crates.b64Decode p))
    guard (now ≤ claims.exp)
    guard (claims.nbf.all (· ≤ now))
    guard (trimEndMatches '/' claims.iss = trimEndMatches '/' ("https://" ++ teamDomain))
    guard (audOk expectedAud claims.aud)
    some claims
  | _ => none

end Worker
end LetsEmbed.Access
