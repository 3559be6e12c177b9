import LetsEmbed.Systems.Base64
import LetsEmbed.Token

/-! What a session token says is what was signed, whichever worker reads it. -/

namespace LetsEmbed.Session
open Text

variable {crates : Crates} {token : String} {secret : List UInt8} {now : Nat}

/-- What a reader goes through before it believes a token. -/
theorem jwtVerify_eq_some {c : SessionClaims} : jwtVerify crates token secret now = some c ↔
    ∃ payload sig json, splitOnce '.' token = some (payload, sig) ∧
      crates.b64Decode sig = some (crates.hmacSha256 secret (bytes payload)) ∧ crates.b64Decode payload = some json ∧
      crates.fromSlice json = some c ∧ c.exp ≥ now ∧ isValidPrincipal c.sub = true := by
  simp only [jwtVerify, bind, Option.bind_eq_some_iff, Option.guard_eq_some', Option.ite_none_right_eq_some,
    Option.some.injEq]
  constructor
  · rintro ⟨⟨payload, sig⟩, split, mac, macRead, _, same, json, jsonRead, claims, parsed, valid, rfl⟩
    exact ⟨payload, sig, json, split, same ▸ macRead, jsonRead, parsed, valid⟩
  · rintro ⟨payload, sig, json, split, macRead, jsonRead, parsed, valid⟩
    exact ⟨(payload, sig), split, _, macRead, (), rfl, json, jsonRead, c, parsed, valid, rfl⟩

/-- The gateway's reader is a copy, down to the principals. -/
theorem readers_agree : Gateway.jwtVerify crates token secret now =
    (jwtVerify crates token secret now).map fun c => ⟨c.sub, c.iat, c.exp⟩ := by
  have principals (s : String) : Gateway.isValidPrincipal s = isValidPrincipal s := rfl
  rw [Gateway.jwtVerify, jwtVerify]
  cases splitOnce '.' token with
  | none => rfl
  | some parts =>
    simp only [bind, Option.bind_some]
    cases crates.b64Decode parts.2 with
    | none => rfl
    | some mac =>
      simp only [Option.bind_some]
      by_cases same : mac = crates.hmacSha256 secret (bytes parts.1)
      · simp only [same, guard, if_true, pure, Option.bind_some]
        cases crates.b64Decode parts.1 with
        | none => rfl
        | some json =>
          simp only [Option.bind_some, Gateway.fromSlice]
          cases crates.fromSlice json with
          | none => rfl
          | some c =>
            simp only [Option.map_some, Option.bind_some, principals]
            split <;> rfl
      · simp only [same, guard, if_false]
        rfl

/-- The assumptions about the crates, for the claims at hand. -/
structure Crates.Signs (crates : Crates) (c : SessionClaims) : Prop where
  decoded : ∀ bytes, crates.b64Decode (crates.b64Encode bytes) = some bytes
  dotless : ∀ bytes, '.' ∉ (crates.b64Encode bytes).toList
  parsed : crates.fromSlice (crates.toVec c) = some c

theorem jwtVerify_jwtSign {c : SessionClaims} (signs : crates.Signs c) :
    jwtVerify crates (jwtSign crates c secret) secret now =
      if c.exp ≥ now ∧ isValidPrincipal c.sub = true then some c else none := by
  have split : splitOnce '.' (jwtSign crates c secret) = some (crates.b64Encode (crates.toVec c),
      crates.b64Encode (crates.hmacSha256 secret (bytes (crates.b64Encode (crates.toVec c))))) := by
    refine splitOnce_eq_some.mpr ⟨?_, signs.dotless _⟩
    rw [jwtSign, String.toList_append, String.toList_append, List.append_assoc]
    rfl
  rw [jwtVerify, split]
  simp [signs.decoded, signs.parsed]

/-- Whatever either worker accepts was signed for exactly the payload it reads, and
the other worker reads the same; what one worker signs the other reads back while
it lasts. -/
theorem tokens_agree (crates : Crates) (secret : List UInt8) (now : Nat) :
    (∀ c, crates.Signs c → Gateway.jwtVerify crates (jwtSign crates c secret) secret now =
      if c.exp ≥ now ∧ isValidPrincipal c.sub = true then some ⟨c.sub, c.iat, c.exp⟩ else none) ∧
    ∀ token, Gateway.jwtVerify crates token secret now =
        (jwtVerify crates token secret now).map (fun c => ⟨c.sub, c.iat, c.exp⟩) ∧
      ∀ c ∈ jwtVerify crates token secret now, ∃ payload sig, token = payload ++ "." ++ sig ∧ '.' ∉ payload.toList ∧
        crates.b64Decode sig = some (crates.hmacSha256 secret (bytes payload)) ∧
        (crates.b64Decode payload).bind crates.fromSlice = some c := by
  refine ⟨fun c signs => ?_, fun token => ⟨readers_agree, fun c accepted => ?_⟩⟩
  · rw [readers_agree, jwtVerify_jwtSign signs]
    split <;> rfl
  · obtain ⟨payload, sig, json, split, signed, decoded, parsed, _⟩ := jwtVerify_eq_some.mp accepted
    obtain ⟨whole, free⟩ := splitOnce_eq_some.mp split
    refine ⟨payload, sig, ?_, free, signed, by rw [decoded, Option.bind_some, parsed]⟩
    apply String.toList_inj.mp
    rw [whole, String.toList_append, String.toList_append, List.append_assoc]
    rfl

section Example

def sampleClaims : SessionClaims := ⟨"0xd8da6bf26964af9d7eed9e03e53415d37aa96045", 1000, 2000⟩

def sampleJson (c : SessionClaims) : List UInt8 :=
  bytes ("\x7b\"sub\":\"" ++ c.sub ++ "\",\"iat\":" ++ c.iat.repr ++ ",\"exp\":" ++ c.exp.repr ++ "\x7d")

/-- The digest of the sample's payload under its secret; no other is asked for. -/
def sampleCrates : Crates where
  b64Encode := Systems.Base64.encode
  b64Decode := Systems.Base64.decode
  toVec := sampleJson
  fromSlice json := if json = sampleJson sampleClaims then some sampleClaims else none
  hmacSha256 _ _ := [91, 73, 104, 165, 206, 43, 211, 103, 156, 154, 103, 248, 169, 130, 110, 213, 87, 174, 254, 147, 207, 178,
    31, 54, 161, 183, 33, 162, 119, 29, 191, 135]

theorem sampleCrates_signs : sampleCrates.Signs sampleClaims where
  decoded := Systems.Base64.decode_encode
  dotless bytes member := absurd (Systems.Base64.mem_alphabet_of_encode bytes _ member) (by decide)
  parsed := by simp [sampleCrates]

theorem tokens_agree_sample :
    let secret := bytes "test-secret"
    let token := jwtSign sampleCrates sampleClaims secret
    Gateway.jwtVerify sampleCrates token secret 1500 = some ⟨sampleClaims.sub, 1000, 2000⟩ ∧
      Gateway.jwtVerify sampleCrates token secret 2001 = none := by
  intro secret token
  constructor
  · rw [(tokens_agree sampleCrates secret 1500).1 sampleClaims sampleCrates_signs]
    exact if_pos (by decide +kernel)
  · rw [(tokens_agree sampleCrates secret 2001).1 sampleClaims sampleCrates_signs]
    exact if_neg (by decide +kernel)

end Example

end LetsEmbed.Session
