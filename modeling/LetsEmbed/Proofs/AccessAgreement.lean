import LetsEmbed.Access
import LetsEmbed.Proofs.TextUtf8
import LetsEmbed.Systems.Base64

/-! The two verifiers of Access tokens side by side. Of what a signed token claims, each
looks at something that the other passes over. -/

namespace LetsEmbed.Access
open Text

/-- A token taken apart: its two JSON values, what was signed, and the signature. -/
structure Opened where
  header : Json
  claims : Json
  message : List UInt8
  sig : List UInt8

variable {Key : Type}

def opened (crates : Crates Key) (token : String) : Option Opened :=
  match split '.' token with
  | [h, p, s] => do
    let header ← crates.fromSlice (← crates.b64Decode h)
    let claims ← crates.fromSlice (← crates.b64Decode p)
    some ⟨header, claims, bytes (h ++ "." ++ p), ← crates.b64Decode s⟩
  | _ => none

def issuer (team : String) : String := "https://" ++ team ++ ".cloudflareaccess.com"

/-- The orders in which the verifiers read the fields of a header or of claims that come
as an array. -/
def gatewayHeader : List String := ["alg", "kid"]
def workerHeader : List String := ["kid", "alg"]
def gatewayClaims : List String := ["aud", "exp", "iss"]
def workerClaims : List String := ["aud", "email", "iss", "exp", "nbf"]

section Conditions
variable (crates : Crates Key) (keys : String → Option Key) (team expectedAud : String) (now : Nat) (names : List String)

def Signed (t : Opened) : Prop :=
  ∃ kid key, slot t.header names "alg" = some (some (.str "RS256")) ∧ slot t.header names "kid" = some (some (.str kid)) ∧
    keys kid = some key ∧ crates.verifySig key t.message t.sig = true

/-- The audience is there, alone or in a list. -/
def Mentions (aud : Json) : Prop := aud = .str expectedAud ∨ ∃ items, aud = .arr items ∧ .str expectedAud ∈ items

/-- For this audience, of this team but for slashes at the end, and not expired. -/
def Named (claims : Json) : Prop :=
  (∃ aud, slot claims names "aud" = some (some aud) ∧ Mentions expectedAud aud) ∧
    (∃ exp, slot claims names "exp" = some (some (.unsigned exp)) ∧ now ≤ exp) ∧
    ∃ iss, slot claims names "iss" = some (some (.str iss)) ∧ trimEndMatches '/' iss = issuer team

/-- Every audience is a text, and the issuer has no slash at its end. -/
def Strict (claims : Json) : Prop :=
  (∀ items, slot claims names "aud" = some (some (.arr items)) → ∀ item ∈ items, ∃ s, item = .str s) ∧
    slot claims names "iss" = some (some (.str (issuer team)))

/-- Not before its time, and with an e-mail address that is a text, where there are any. -/
def Timely (claims : Json) : Prop :=
  (∃ nbf, slot claims names "nbf" = some nbf ∧ (nbf = none ∨ nbf = some .null ∨ ∃ n, nbf = some (.unsigned n) ∧ n ≤ now)) ∧
    ∃ email, slot claims names "email" = some email ∧ (email = none ∨ email = some .null ∨ ∃ s, email = some (.str s))

end Conditions

section Decoding
variable {value : Json} {expectedAud : String}

theorem decodeString_eq_some {found : Option Json} {s : String} : Json.decodeString found = some s ↔ found = some (.str s) := by
  unfold Json.decodeString
  split <;> simp_all

theorem decodeU64_eq_some {found : Option Json} {n : Nat} : decodeU64 found = some n ↔ found = some (.unsigned n) := by
  unfold decodeU64
  split <;> simp_all

theorem decodeJwtKeyInfo_eq_some {info : Gateway.JwtKeyInfo} : Gateway.decodeJwtKeyInfo value = some info ↔
    slot value gatewayHeader "alg" = some (some (.str info.alg)) ∧ slot value gatewayHeader "kid" = some (some (.str info.kid)) := by
  simp only [Gateway.decodeJwtKeyInfo, bind, pure, Option.bind_eq_some_iff, decodeString_eq_some]
  constructor
  · intro ⟨_, alg, _, textual, _, kid, _, textual', made⟩
    cases textual
    cases textual'
    cases made
    exact ⟨alg, kid⟩
  · intro ⟨alg, kid⟩
    exact ⟨_, alg, _, rfl, _, kid, _, rfl, rfl⟩

theorem decodeJwtHeader_eq_some {header : Worker.JwtHeader} : Worker.decodeJwtHeader value = some header ↔
    slot value workerHeader "alg" = some (some (.str header.alg)) ∧ slot value workerHeader "kid" = some (some (.str header.kid)) := by
  simp only [Worker.decodeJwtHeader, bind, pure, Option.bind_eq_some_iff, decodeString_eq_some]
  constructor
  · intro ⟨_, kid, _, textual, _, alg, _, textual', made⟩
    cases textual
    cases textual'
    cases made
    exact ⟨alg, kid⟩
  · intro ⟨alg, kid⟩
    exact ⟨_, kid, _, rfl, _, alg, _, rfl, rfl⟩

theorem decodeJwtClaim_eq_some {claim : Gateway.JwtClaim} : Gateway.decodeJwtClaim value = some claim ↔
    (∃ aud, slot value gatewayClaims "aud" = some (some aud) ∧ Gateway.decodeAudience (some aud) = some claim.aud) ∧
      slot value gatewayClaims "exp" = some (some (.unsigned claim.exp)) ∧
      slot value gatewayClaims "iss" = some (some (.str claim.iss)) := by
  simp only [Gateway.decodeJwtClaim, bind, pure, Option.bind_eq_some_iff, decodeString_eq_some, decodeU64_eq_some]
  constructor
  · intro ⟨found, aud, _, read, _, exp, _, integral, _, iss, _, textual, made⟩
    cases integral
    cases textual
    cases made
    cases found with
    | none => cases read
    | some found => exact ⟨⟨found, aud, read⟩, exp, iss⟩
  · intro ⟨⟨_, aud, read⟩, exp, iss⟩
    exact ⟨_, aud, _, read, _, exp, _, rfl, _, iss, _, rfl, rfl⟩

theorem decodeAccessClaims_eq_some {claims : Worker.AccessClaims} : Worker.decodeAccessClaims value = some claims ↔
    slot value workerClaims "aud" = some (some claims.aud) ∧
      (∃ email, slot value workerClaims "email" = some email ∧ Json.decodeOptional email = some claims.email) ∧
      slot value workerClaims "iss" = some (some (.str claims.iss)) ∧
      slot value workerClaims "exp" = some (some (.unsigned claims.exp)) ∧
      ∃ nbf, slot value workerClaims "nbf" = some nbf ∧ decodeOptionalU64 nbf = some claims.nbf := by
  simp only [Worker.decodeAccessClaims, bind, pure, Option.bind_eq_some_iff, decodeString_eq_some, decodeU64_eq_some]
  constructor
  · intro ⟨_, aud, _, there, _, email, _, read, _, iss, _, textual, _, exp, _, integral, _, nbf, _, read', made⟩
    cases there
    cases textual
    cases integral
    cases made
    exact ⟨aud, ⟨_, email, read⟩, iss, exp, _, nbf, read'⟩
  · intro ⟨aud, ⟨_, email, read⟩, iss, exp, _, nbf, read'⟩
    exact ⟨_, aud, _, rfl, _, email, _, read, _, iss, _, rfl, _, exp, _, rfl, _, nbf, _, read', rfl⟩

theorem asStr_eq_some {s : String} : value.asStr = some s ↔ value = .str s := by
  cases value <;> simp [Json.asStr]

theorem mapM_asStr {items : List Json} {texts : List String} : items.mapM Json.asStr = some texts ↔ items = texts.map .str := by
  induction items generalizing texts with
  | nil => cases texts <;> simp
  | cons item items ih =>
    simp only [List.mapM_cons, bind, pure, Option.bind_eq_some_iff, asStr_eq_some, ih, Option.some.injEq]
    constructor
    · intro ⟨s, here, rest, there, whole⟩
      rw [← whole, here, there]
      rfl
    · intro whole
      cases texts with
      | nil => cases whole
      | cons s texts =>
        cases whole
        exact ⟨s, rfl, texts, rfl, rfl⟩

theorem texts_of_textual {items : List Json} (textual : ∀ item ∈ items, ∃ s, item = .str s) :
    ∃ texts : List String, items = texts.map .str := by
  induction items with
  | nil => exact ⟨[], rfl⟩
  | cons item items ih =>
    obtain ⟨⟨s, here⟩, others⟩ := List.forall_mem_cons.mp textual
    obtain ⟨texts, there⟩ := ih others
    exact ⟨s :: texts, by rw [here, there, List.map_cons]⟩

/-- The gateway finds the audience in a text or in a list of texts. -/
theorem decodeAudience_contains {aud : Json} :
    (∃ read, Gateway.decodeAudience (some aud) = some read ∧ read.contains expectedAud = true) ↔
      Mentions expectedAud aud ∧ ∀ items, aud = .arr items → ∀ item ∈ items, ∃ s, item = .str s := by
  cases aud with
  | str s => simp [Gateway.decodeAudience, Gateway.Audience.contains, Mentions]
  | arr items =>
    simp only [Gateway.decodeAudience, Option.map_eq_some_iff, mapM_asStr, Mentions, reduceCtorEq, false_or, Json.arr.injEq]
    constructor
    · intro ⟨_, ⟨texts, whole, made⟩, inside⟩
      cases made
      rw [whole]
      refine ⟨⟨_, rfl, List.mem_map_of_mem (List.contains_iff_mem.mp inside)⟩, fun _ same item member => ?_⟩
      rw [← same] at member
      obtain ⟨s, _, made⟩ := List.mem_map.mp member
      exact ⟨s, made.symm⟩
    · intro ⟨⟨_, rfl, inside⟩, textual⟩
      obtain ⟨texts, whole⟩ := texts_of_textual (textual items rfl)
      rw [whole] at inside
      obtain ⟨s, member, same⟩ := List.mem_map.mp inside
      cases same
      exact ⟨_, ⟨texts, whole, rfl⟩, List.contains_iff_mem.mpr member⟩
  | null => simp [Gateway.decodeAudience, Mentions]
  | bool value => simp [Gateway.decodeAudience, Mentions]
  | unsigned value => simp [Gateway.decodeAudience, Mentions]
  | number => simp [Gateway.decodeAudience, Mentions]
  | obj fields => simp [Gateway.decodeAudience, Mentions]

theorem audOk_iff {aud : Json} : Worker.audOk expectedAud aud = true ↔ Mentions expectedAud aud := by
  cases aud with
  | str s => simp [Worker.audOk, Mentions]
  | arr items => simp [Worker.audOk, Mentions, asStr_eq_some]
  | null => simp [Worker.audOk, Mentions]
  | bool value => simp [Worker.audOk, Mentions]
  | unsigned value => simp [Worker.audOk, Mentions]
  | number => simp [Worker.audOk, Mentions]
  | obj fields => simp [Worker.audOk, Mentions]

theorem decodeOptionalU64_timely {nbf : Option Json} {now : Nat} :
    (∃ read, decodeOptionalU64 nbf = some read ∧ read.all (· ≤ now) = true) ↔
      nbf = none ∨ nbf = some .null ∨ ∃ n, nbf = some (.unsigned n) ∧ n ≤ now := by
  unfold decodeOptionalU64
  split <;> simp_all

theorem decodeOptional_isSome {email : Option Json} : (∃ read, Json.decodeOptional email = some read) ↔
    email = none ∨ email = some .null ∨ ∃ s, email = some (.str s) := by
  unfold Json.decodeOptional
  split <;> simp_all

end Decoding

section Claims
variable {value : Json} {team expectedAud : String} {now : Nat}

theorem trimEndMatches_issuer : trimEndMatches '/' (issuer team) = issuer team := by
  have ends : (issuer team).toList.reverse = ".cloudflareaccess.com".toList.reverse ++ ("https://" ++ team).toList.reverse := by
    rw [issuer, String.toList_append, List.reverse_append]
  have kept : ∀ rest : List Char, (".cloudflareaccess.com".toList.reverse ++ rest).dropWhile (· == '/') =
      ".cloudflareaccess.com".toList.reverse ++ rest := by
    intro rest
    rw [String.toList_ofList]
    rfl
  rw [trimEndMatches, ends, kept, ← ends, List.reverse_reverse, String.ofList_toList]

theorem gateway_claims : (∃ claim, Gateway.decodeJwtClaim value = some claim ∧ claim.aud.contains expectedAud = true ∧
    claim.iss = issuer team ∧ now ≤ claim.exp) ↔
      Named team expectedAud now gatewayClaims value ∧ Strict team gatewayClaims value := by
  simp only [decodeJwtClaim_eq_some]
  constructor
  · intro ⟨claim, ⟨⟨aud, found, read⟩, exp, iss⟩, contained, issued, later⟩
    obtain ⟨mentions, textual⟩ := decodeAudience_contains.mp ⟨claim.aud, read, contained⟩
    rw [issued] at iss
    refine ⟨⟨⟨aud, found, mentions⟩, ⟨claim.exp, exp, later⟩, _, iss, trimEndMatches_issuer⟩, ?_, iss⟩
    intro items list
    cases found.symm.trans list
    exact textual items rfl
  · intro ⟨⟨⟨aud, found, mentions⟩, ⟨exp, expires, later⟩, _⟩, textual, iss⟩
    obtain ⟨read, decoded, contained⟩ := decodeAudience_contains.mpr ⟨mentions, fun items list => textual items (list ▸ found)⟩
    exact ⟨⟨read, exp, issuer team⟩, ⟨⟨aud, found, decoded⟩, expires, iss⟩, contained, rfl, later⟩

theorem worker_claims : (∃ claims, Worker.decodeAccessClaims value = some claims ∧ now ≤ claims.exp ∧
    claims.nbf.all (· ≤ now) = true ∧ trimEndMatches '/' claims.iss = issuer team ∧ Worker.audOk expectedAud claims.aud = true) ↔
      Named team expectedAud now workerClaims value ∧ Timely now workerClaims value := by
  simp only [decodeAccessClaims_eq_some, audOk_iff]
  constructor
  · intro ⟨claims, ⟨aud, ⟨email, found, read⟩, iss, exp, nbf, found', read'⟩, later, begun, issued, mentions⟩
    have begins := decodeOptionalU64_timely.mp ⟨claims.nbf, read', begun⟩
    have addressed := decodeOptional_isSome.mp ⟨claims.email, read⟩
    exact ⟨⟨⟨claims.aud, aud, mentions⟩, ⟨claims.exp, exp, later⟩, claims.iss, iss, issued⟩, ⟨nbf, found', begins⟩, email, found,
      addressed⟩
  · intro ⟨⟨⟨aud, found, mentions⟩, ⟨exp, expires, later⟩, iss, textual, issued⟩, ⟨nbf, found', begins⟩, email, found'', addressed⟩
    obtain ⟨read, decoded, begun⟩ := decodeOptionalU64_timely.mpr begins
    obtain ⟨address, decoded'⟩ := decodeOptional_isSome.mpr addressed
    exact ⟨⟨aud, address, iss, exp, read⟩, ⟨found, ⟨email, found'', decoded'⟩, textual, expires, nbf, found', decoded⟩, later, begun,
      issued, mentions⟩

end Claims

section Verdicts
variable {crates : Crates Key} {keys : Gateway.KeyMap Key} {cached fresh : Option (List Jwk)} {token team expectedAud : String}
  {now : Nat}

theorem opened_eq_some {t : Opened} : opened crates token = some t ↔ ∃ h p s, split '.' token = [h, p, s] ∧
    (crates.b64Decode h).bind crates.fromSlice = some t.header ∧ (crates.b64Decode p).bind crates.fromSlice = some t.claims ∧
      t.message = bytes (h ++ "." ++ p) ∧ crates.b64Decode s = some t.sig := by
  unfold opened
  split
  next h p s parts =>
    simp only [bind, Option.bind_eq_some_iff, Option.some.injEq]
    constructor
    · intro ⟨_, coded, _, parsed, _, coded', _, parsed', _, coded'', made⟩
      cases made
      exact ⟨h, p, s, parts, ⟨_, coded, parsed⟩, ⟨_, coded', parsed'⟩, rfl, coded''⟩
    · intro ⟨_, _, _, same, ⟨_, coded, parsed⟩, ⟨_, coded', parsed'⟩, message, coded''⟩
      cases parts.symm.trans same
      exact ⟨_, coded, _, parsed, _, coded', _, parsed', _, coded'', by rw [← message]⟩
  next other =>
    apply iff_of_false (by simp)
    intro ⟨h, p, s, parts, _⟩
    exact other h p s parts

theorem orElse_eq_ok {α : Type} {refusal : Gateway.Refusal} {found : Option α} {value : α} :
    Gateway.orElse refusal found = .ok value ↔ found = some value := by
  cases found <;> simp [Gateway.orElse]

theorem bind_eq_ok {α β : Type} {first : Except Gateway.Refusal α} {next : α → Except Gateway.Refusal β} {value : β} :
    (first >>= next) = .ok value ↔ ∃ a, first = .ok a ∧ next a = .ok value := by
  cases first <;> simp [bind, Except.bind]

theorem refuse_eq_ok {α : Type} {refused : Prop} [Decidable refused] {refusal : Gateway.Refusal} {rest : Except Gateway.Refusal α}
    {value : α} : (if refused then .error refusal else rest) = .ok value ↔ ¬refused ∧ rest = .ok value := by
  split <;> simp_all

theorem gateway_accepts : Gateway.verify crates (some team) (some keys) (bytes token) expectedAud now = .ok () ↔
    ∃ t, opened crates token = some t ∧ Signed crates keys gatewayHeader t ∧
      Named team expectedAud now gatewayClaims t.claims ∧ Strict team gatewayClaims t.claims := by
  simp only [Gateway.verify, fromUtf8Lossy_bytes, bind_eq_ok, orElse_eq_ok, opened_eq_some]
  simp only [Option.some.injEq, exists_eq_left']
  split
  next h p s parts =>
    simp only [bind_eq_ok, orElse_eq_ok, refuse_eq_ok, Option.bind_eq_some_iff, Bool.not_eq_true', Bool.not_eq_false, not_not,
      Nat.not_lt]
    constructor
    · intro ⟨_, coded, info, ⟨header, parsed, read⟩, rs256, key, known, sig, coded', verified, _, coded'', claim, ⟨claims, parsed',
        read'⟩, contained, issued, later, _⟩
      obtain ⟨alg, kid⟩ := decodeJwtKeyInfo_eq_some.mp read
      rw [rs256] at alg
      obtain ⟨named, strict⟩ := gateway_claims.mp ⟨claim, read', contained, issued, later⟩
      exact ⟨⟨header, claims, _, sig⟩, ⟨h, p, s, parts, ⟨_, coded, parsed⟩, ⟨_, coded'', parsed'⟩, rfl, coded'⟩,
        ⟨info.kid, key, alg, kid, known, verified⟩, named, strict⟩
    · intro ⟨t, ⟨_, _, _, same, ⟨_, coded, parsed⟩, ⟨_, coded', parsed'⟩, message, coded''⟩, ⟨kid, key, alg, named, known, verified⟩,
        claims⟩
      cases parts.symm.trans same
      obtain ⟨claim, read, contained, issued, later⟩ := gateway_claims.mpr claims
      rw [message] at verified
      exact ⟨_, coded, ⟨"RS256", kid⟩, ⟨_, parsed, decodeJwtKeyInfo_eq_some.mpr ⟨alg, named⟩⟩, rfl, key, known, _, coded'', verified,
        _, coded', claim, ⟨_, parsed', read⟩, contained, issued, later, trivial⟩
  next other =>
    apply iff_of_false (by simp)
    intro ⟨_, ⟨h, p, s, parts, _⟩, _⟩
    exact other h p s parts

theorem worker_accepts : (Worker.verifyAccessJwt crates cached fresh token (team ++ ".cloudflareaccess.com") expectedAud now).isSome = true ↔
    ∃ t, opened crates token = some t ∧ Signed crates (Worker.findKey crates cached fresh) workerHeader t ∧
      Named team expectedAud now workerClaims t.claims ∧ Timely now workerClaims t.claims := by
  have domain : trimEndMatches '/' ("https://" ++ (team ++ ".cloudflareaccess.com")) = issuer team := by
    rw [← String.append_assoc]
    exact trimEndMatches_issuer
  simp only [Worker.verifyAccessJwt, opened_eq_some, domain, Option.isSome_iff_exists]
  split
  next h p s parts =>
    simp only [bind, Option.bind_eq_some_iff, Option.guard_eq_some', Option.some.injEq]
    constructor
    · intro ⟨_, _, coded, header, parsed, read, decoded, _, rs256, key, known, sig, coded', _, verified, _, coded'', claims, parsed',
        claim, decoded', _, later, _, begun, _, issued, _, mentions, _⟩
      obtain ⟨alg, kid⟩ := decodeJwtHeader_eq_some.mp decoded
      rw [rs256] at alg
      obtain ⟨named, timely⟩ := worker_claims.mp ⟨claim, decoded', later, begun, issued, mentions⟩
      exact ⟨⟨header, claims, _, sig⟩, ⟨h, p, s, parts, ⟨_, coded, parsed⟩, ⟨_, coded'', parsed'⟩, rfl, coded'⟩,
        ⟨read.kid, key, alg, kid, known, verified⟩, named, timely⟩
    · intro ⟨t, ⟨_, _, _, same, ⟨_, coded, parsed⟩, ⟨_, coded', parsed'⟩, message, coded''⟩, ⟨kid, key, alg, named, known, verified⟩,
        claims⟩
      cases parts.symm.trans same
      obtain ⟨claim, decoded, later, begun, issued, mentions⟩ := worker_claims.mpr claims
      rw [message] at verified
      exact ⟨claim, _, coded, _, parsed, ⟨kid, "RS256"⟩, decodeJwtHeader_eq_some.mpr ⟨alg, named⟩, (), rfl, key, known, _, coded'', (),
        verified, _, coded', _, parsed', claim, decoded, (), later, (), begun, (), issued, (), mentions, rfl⟩
  next other =>
    apply iff_of_false (by simp)
    intro ⟨_, ⟨h, p, s, parts, _⟩, _⟩
    exact other h p s parts

end Verdicts

/-- The ingress and the worker know the same keys. -/
def SameKeys (crates : Crates Key) (keys : Gateway.KeyMap Key) (cached fresh : Option (List Jwk)) : Prop :=
  ∀ kid, keys kid = Worker.findKey crates cached fresh kid

section Keys
variable {crates : Crates Key} {keys : Gateway.KeyMap Key} {jwks : List Jwk} {kid : String}

def decodeKey (crates : Crates Key) (jwk : Jwk) : Option Key := do
  let n ← crates.b64Decode jwk.n
  let e ← crates.b64Decode jwk.e
  crates.publicKey n e

theorem findKey_eq : Worker.findKey crates (some jwks) (some jwks) kid = (jwks.find? (·.kid = kid)).bind (decodeKey crates) := by
  unfold Worker.findKey
  simp only [bind, Option.bind_some]
  cases found : jwks.find? (·.kid = kid) with
  | none => simp
  | some jwk => rfl

theorem lookup_reverse {α : Type} {entries : List (String × α)} (distinct : (entries.map (·.1)).Nodup) :
    entries.reverse.lookup kid = entries.lookup kid := by
  induction entries with
  | nil => rfl
  | cons entry entries ih =>
    rw [List.map_cons, List.nodup_cons] at distinct
    rw [List.reverse_cons, List.lookup_append, ih distinct.2, List.lookup_cons, List.lookup_cons, List.lookup_nil]
    by_cases here : kid = entry.1
    · have missing : entries.lookup kid = none := by
        rw [List.lookup_eq_none_iff]
        intro other member
        rw [bne_iff_ne, here]
        intro same
        exact distinct.1 (List.mem_map.mpr ⟨other, member, same.symm⟩)
      rw [missing]
      rfl
    · rw [beq_eq_false_iff_ne.mpr here]
      exact Option.or_none

/-- Key by key, what is loaded is what is found. -/
theorem entries_of_load {entries : List (String × Key)}
    (loaded : (jwks.mapM fun jwk => (decodeKey crates jwk).map (jwk.kid, ·)) = some entries) :
    entries.map (·.1) = jwks.map (·.kid) ∧ ∀ kid, entries.lookup kid = (jwks.find? (·.kid = kid)).bind (decodeKey crates) := by
  induction jwks generalizing entries with
  | nil =>
    cases loaded
    exact ⟨rfl, fun _ => rfl⟩
  | cons jwk jwks ih =>
    simp only [List.mapM_cons, bind, pure, Option.bind_eq_some_iff, Option.map_eq_some_iff] at loaded
    obtain ⟨_, ⟨key, decoded, made⟩, rest, others, whole⟩ := loaded
    cases made
    cases whole
    obtain ⟨ids, found⟩ := ih others
    refine ⟨congrArg (jwk.kid :: ·) ids, fun kid => ?_⟩
    rw [List.lookup_cons, List.find?_cons]
    by_cases here : kid = jwk.kid
    · simp [here, decoded]
    · rw [beq_eq_false_iff_ne.mpr here, found]
      simp [Ne.symm here]

/-- Where ids are distinct, both find the keys that the team publishes. -/
theorem same_keys (distinct : (jwks.map (·.kid)).Nodup) (loaded : Gateway.initKeys crates jwks = some keys) :
    SameKeys crates keys (some jwks) (some jwks) := by
  have each : (fun key : Jwk => (do
      let n ← crates.b64Decode key.n
      let e ← crates.b64Decode key.e
      pure (key.kid, ← crates.publicKey n e))) = fun jwk => (decodeKey crates jwk).map (jwk.kid, ·) := by
    funext key
    unfold decodeKey
    cases crates.b64Decode key.n with
    | none => rfl
    | some n =>
      cases crates.b64Decode key.e with
      | none => rfl
      | some e => cases found : crates.publicKey n e <;> simp [found]
  rw [Gateway.initKeys, each] at loaded
  obtain ⟨entries, made, same⟩ := Option.bind_eq_some_iff.mp loaded
  cases same
  obtain ⟨ids, found⟩ := entries_of_load made
  intro kid
  rw [findKey_eq, ← found, ← lookup_reverse (ids ▸ distinct)]

end Keys

/-- Both verifiers take the token or neither does, and none that is taken is used before
or after its time. -/
structure Agree (crates : Crates Key) (keys : Gateway.KeyMap Key) (cached fresh : Option (List Jwk))
    (token team expectedAud : String) (now : Nat) : Prop where
  same : Gateway.verify crates (some team) (some keys) (bytes token) expectedAud now = .ok () ↔
    (Worker.verifyAccessJwt crates cached fresh token (team ++ ".cloudflareaccess.com") expectedAud now).isSome = true
  timely : ∀ t, opened crates token = some t →
    (Gateway.verify crates (some team) (some keys) (bytes token) expectedAud now = .ok () ∨
      (Worker.verifyAccessJwt crates cached fresh token (team ++ ".cloudflareaccess.com") expectedAud now).isSome = true) →
    (∀ nbf, t.claims.get "nbf" = some (.unsigned nbf) → nbf ≤ now) ∧ ∀ exp, t.claims.get "exp" = some (.unsigned exp) → now ≤ exp

/-- What one verifier asks for and the other does not is there or missing on both sides. -/
def Balanced (crates : Crates Key) (keys : Gateway.KeyMap Key) (team expectedAud : String) (now : Nat) (t : Opened) : Prop :=
  (Signed crates keys gatewayHeader t ∧ Named team expectedAud now gatewayClaims t.claims ∧ Strict team gatewayClaims t.claims) ↔
    (Signed crates keys workerHeader t ∧ Named team expectedAud now workerClaims t.claims ∧ Timely now workerClaims t.claims)

section Agreement
variable {crates : Crates Key} {keys : Gateway.KeyMap Key} {cached fresh : Option (List Jwk)} {token team expectedAud : String}
  {now : Nat} {t : Opened}

theorem lookup_eq_filter {fields : List (String × Json)} {name : String} :
    fields.lookup name = (fields.filter (·.1 = name)).head?.map (·.2) := by
  induction fields with
  | nil => rfl
  | cons field fields ih =>
    rw [List.lookup_cons]
    by_cases here : name = field.1
    · simp [here]
    · have other : (name == field.1) = false := beq_eq_false_iff_ne.mpr here
      rw [other, ih, List.filter_cons_of_neg (by simpa using Ne.symm here)]

/-- In an object, a field that is read is the one of that name. -/
theorem get_of_slot {names : List String} {name : String} {value read : Json} {found : Option Json}
    (reads : slot value names name = some found) (there : value.get name = some read) : found = some read := by
  cases value with
  | obj fields =>
    change fields.lookup name = some read at there
    rw [lookup_eq_filter] at there
    simp only [slot] at reads
    split at reads
    next none => simp [none] at there
    next field single =>
      cases reads
      simpa [single] using there
    next => cases reads
  | null => cases there
  | bool value => cases there
  | unsigned value => cases there
  | number => cases there
  | str value => cases there
  | arr items => cases there

theorem worker_timely (named : Named team expectedAud now workerClaims t.claims) (timely : Timely now workerClaims t.claims) :
    (∀ nbf, t.claims.get "nbf" = some (.unsigned nbf) → nbf ≤ now) ∧ ∀ exp, t.claims.get "exp" = some (.unsigned exp) → now ≤ exp := by
  obtain ⟨_, ⟨exp, expires, later⟩, _⟩ := named
  obtain ⟨⟨nbf, begins, begun⟩, _⟩ := timely
  constructor
  · intro n there
    cases get_of_slot begins there
    simpa using begun
  · intro n there
    cases get_of_slot expires there
    exact later

/-- In objects the order of fields does not matter. -/
theorem balanced_objects {header claims : List (String × Json)} (objects : t.header = .obj header ∧ t.claims = .obj claims) :
    Balanced crates keys team expectedAud now t ↔
      (Signed crates keys gatewayHeader t → Named team expectedAud now gatewayClaims t.claims →
        (Strict team gatewayClaims t.claims ↔ Timely now workerClaims t.claims)) := by
  have signed : Signed crates keys workerHeader t ↔ Signed crates keys gatewayHeader t := by
    unfold Signed
    rw [objects.1]
    exact Iff.rfl
  have named : Named team expectedAud now workerClaims t.claims ↔ Named team expectedAud now gatewayClaims t.claims := by
    unfold Named
    rw [objects.2]
    exact Iff.rfl
  rw [Balanced, signed, named, and_congr_right_iff, ← and_congr_right_iff]
  simp only [and_congr_right_iff]

theorem slot_array {items : List Json} {names : List String} {name : String} {found : Option Json}
    (reads : slot (.arr items) names name = some found) : items.length = names.length := by
  simp only [slot] at reads
  split at reads
  next same => exact same
  next => cases reads

theorem gatewayHeader_slots (first second : Json) :
    slot (.arr [first, second]) gatewayHeader "alg" = some (some first) ∧
      slot (.arr [first, second]) gatewayHeader "kid" = some (some second) := ⟨rfl, rfl⟩

theorem workerHeader_slots (first second : Json) :
    slot (.arr [first, second]) workerHeader "kid" = some (some first) ∧
      slot (.arr [first, second]) workerHeader "alg" = some (some second) := ⟨rfl, rfl⟩

theorem gatewayClaims_slots (first second third : Json) :
    slot (.arr [first, second, third]) gatewayClaims "aud" = some (some first) ∧
      slot (.arr [first, second, third]) gatewayClaims "exp" = some (some second) ∧
      slot (.arr [first, second, third]) gatewayClaims "iss" = some (some third) := ⟨rfl, rfl, rfl⟩

theorem workerClaims_slots (first second third fourth fifth : Json) :
    slot (.arr [first, second, third, fourth, fifth]) workerClaims "aud" = some (some first) ∧
      slot (.arr [first, second, third, fourth, fifth]) workerClaims "email" = some (some second) ∧
      slot (.arr [first, second, third, fourth, fifth]) workerClaims "iss" = some (some third) ∧
      slot (.arr [first, second, third, fourth, fifth]) workerClaims "exp" = some (some fourth) ∧
      slot (.arr [first, second, third, fourth, fifth]) workerClaims "nbf" = some (some fifth) := ⟨rfl, rfl, rfl, rfl, rfl⟩

/-- What the gateway takes of claims that come as an array: three items. -/
def GatewayArray (team expectedAud : String) (now : Nat) (items : List Json) : Prop :=
  ∃ aud exp, items = [aud, .unsigned exp, .str (issuer team)] ∧ Mentions expectedAud aud ∧
    (∀ list, aud = .arr list → ∀ item ∈ list, ∃ s, item = .str s) ∧ now ≤ exp

/-- What the worker takes of claims that come as an array: five items. -/
def WorkerArray (team expectedAud : String) (now : Nat) (items : List Json) : Prop :=
  ∃ aud email iss exp nbf, items = [aud, email, .str iss, .unsigned exp, nbf] ∧ Mentions expectedAud aud ∧
    trimEndMatches '/' iss = issuer team ∧ now ≤ exp ∧ (nbf = .null ∨ ∃ n, nbf = .unsigned n ∧ n ≤ now) ∧
    (email = .null ∨ ∃ s, email = .str s)

theorem gateway_array {items : List Json} (array : t.claims = .arr items) :
    (Named team expectedAud now gatewayClaims t.claims ∧ Strict team gatewayClaims t.claims) ↔
      GatewayArray team expectedAud now items := by
  rw [array]
  constructor
  · intro ⟨⟨⟨aud, named, mentions⟩, ⟨exp, expires, later⟩, _⟩, textual, issued⟩
    obtain ⟨first, second, third, rfl⟩ := List.length_eq_three.mp (slot_array named)
    obtain ⟨aud', exp', iss'⟩ := gatewayClaims_slots first second third
    cases aud'.symm.trans named
    cases exp'.symm.trans expires
    cases iss'.symm.trans issued
    refine ⟨aud, exp, rfl, mentions, fun list same => textual list ?_, later⟩
    rw [named, same]
  · rintro ⟨aud, exp, rfl, mentions, textual, later⟩
    obtain ⟨named, expires, issued⟩ := gatewayClaims_slots aud (.unsigned exp) (.str (issuer team))
    refine ⟨⟨⟨aud, named, mentions⟩, ⟨exp, expires, later⟩, _, issued, trimEndMatches_issuer⟩, fun list same => ?_, issued⟩
    rw [named] at same
    exact textual list (Option.some.inj (Option.some.inj same))

theorem worker_array {items : List Json} (array : t.claims = .arr items) :
    (Named team expectedAud now workerClaims t.claims ∧ Timely now workerClaims t.claims) ↔
      WorkerArray team expectedAud now items := by
  rw [array]
  constructor
  · intro ⟨⟨⟨aud, named, mentions⟩, ⟨exp, expires, later⟩, iss, issued, trimmed⟩, ⟨nbf, begins, begun⟩, email, addressed, textual⟩
    obtain ⟨first, rest, rfl⟩ := List.exists_cons_of_length_eq_add_one (slot_array named)
    obtain ⟨second, third, fourth, fifth, rfl⟩ := List.length_eq_four.mp (Nat.succ.inj (slot_array named))
    obtain ⟨aud', email', iss', exp', nbf'⟩ := workerClaims_slots first second third fourth fifth
    cases aud'.symm.trans named
    cases email'.symm.trans addressed
    cases iss'.symm.trans issued
    cases exp'.symm.trans expires
    cases nbf'.symm.trans begins
    exact ⟨aud, second, iss, exp, fifth, rfl, mentions, trimmed, later, by simpa using begun, by simpa using textual⟩
  · rintro ⟨aud, email, iss, exp, nbf, rfl, mentions, trimmed, later, begun, textual⟩
    obtain ⟨named, addressed, issued, expires, begins⟩ := workerClaims_slots aud email (.str iss) (.unsigned exp) nbf
    exact ⟨⟨⟨aud, named, mentions⟩, ⟨exp, expires, later⟩, iss, issued, trimmed⟩, ⟨_, begins, by simpa using begun⟩, _, addressed,
      by simpa using textual⟩

/-- Claims that come as an array are never taken by both. -/
theorem balanced_array {items : List Json} (array : t.claims = .arr items) :
    Balanced crates keys team expectedAud now t ↔
      ¬(Signed crates keys gatewayHeader t ∧ GatewayArray team expectedAud now items) ∧
        ¬(Signed crates keys workerHeader t ∧ WorkerArray team expectedAud now items) := by
  rw [Balanced, gateway_array array, worker_array array]
  have apart : GatewayArray team expectedAud now items → ¬WorkerArray team expectedAud now items := by
    rintro ⟨_, _, three, _⟩ ⟨_, _, _, _, _, five, _⟩
    have lengths := congrArg List.length (three.symm.trans five)
    cases lengths
  constructor
  · intro same
    exact ⟨fun gateway => apart gateway.2 (same.mp gateway).2, fun worker => apart (same.mpr worker).2 worker.2⟩
  · exact fun ⟨gateway, worker⟩ => iff_of_false gateway worker

/-- A header that comes as an array names the algorithm first for the gateway, and the
key first for the worker. -/
theorem signed_array {items : List Json} (array : t.header = .arr items) :
    (Signed crates keys gatewayHeader t ↔ ∃ kid key, items = [.str "RS256", .str kid] ∧ keys kid = some key ∧
      crates.verifySig key t.message t.sig = true) ∧
    (Signed crates keys workerHeader t ↔ ∃ kid key, items = [.str kid, .str "RS256"] ∧ keys kid = some key ∧
      crates.verifySig key t.message t.sig = true) := by
  rw [Signed, Signed, array]
  constructor
  · constructor
    · intro ⟨kid, key, algorithm, named, rest⟩
      obtain ⟨first, second, rfl⟩ := List.length_eq_two.mp (slot_array algorithm)
      obtain ⟨alg', kid'⟩ := gatewayHeader_slots first second
      cases alg'.symm.trans algorithm
      cases kid'.symm.trans named
      exact ⟨kid, key, rfl, rest⟩
    · rintro ⟨kid, key, rfl, rest⟩
      obtain ⟨algorithm, named⟩ := gatewayHeader_slots (.str "RS256") (.str kid)
      exact ⟨kid, key, algorithm, named, rest⟩
  · constructor
    · intro ⟨kid, key, algorithm, named, rest⟩
      obtain ⟨first, second, rfl⟩ := List.length_eq_two.mp (slot_array algorithm)
      obtain ⟨kid', alg'⟩ := workerHeader_slots first second
      cases alg'.symm.trans algorithm
      cases kid'.symm.trans named
      exact ⟨kid, key, rfl, rest⟩
    · rintro ⟨kid, key, rfl, rest⟩
      obtain ⟨named, algorithm⟩ := workerHeader_slots (.str kid) (.str "RS256")
      exact ⟨kid, key, algorithm, named, rest⟩

theorem agree_iff (same : SameKeys crates keys cached fresh) : Agree crates keys cached fresh token team expectedAud now ↔
    ∀ t, opened crates token = some t → Balanced crates keys team expectedAud now t := by
  have known : keys = Worker.findKey crates cached fresh := funext same
  have takes (t : Opened) (opens : opened crates token = some t) :
      (Gateway.verify crates (some team) (some keys) (bytes token) expectedAud now = .ok () ↔
        Signed crates keys gatewayHeader t ∧ Named team expectedAud now gatewayClaims t.claims ∧ Strict team gatewayClaims t.claims) ∧
      ((Worker.verifyAccessJwt crates cached fresh token (team ++ ".cloudflareaccess.com") expectedAud now).isSome = true ↔
        Signed crates keys workerHeader t ∧ Named team expectedAud now workerClaims t.claims ∧ Timely now workerClaims t.claims) := by
    rw [gateway_accepts, worker_accepts, opens, known]
    simp
  constructor
  · intro agree t opens
    obtain ⟨gateway, worker⟩ := takes t opens
    rw [Balanced, ← gateway, ← worker]
    exact agree.same
  · intro balanced
    constructor
    · cases opens : opened crates token with
      | none =>
        rw [gateway_accepts, worker_accepts, opens]
        simp
      | some t =>
        obtain ⟨gateway, worker⟩ := takes t opens
        rw [gateway, worker]
        exact balanced t opens
    · intro t opens taken
      obtain ⟨gateway, worker⟩ := takes t opens
      rw [gateway, worker] at taken
      obtain ⟨_, named, timely⟩ := taken.elim (balanced t opens).mp id
      exact worker_timely named timely

end Agreement

/-- The verifiers agree on a token exactly if its signed claims are balanced; where header
and claims are objects, that is to say: unless a token for this team and audience that
has not expired has texts only for its audience and no slash behind its issuer, but is
not begun or has an address that is no text, or the other way round. Claims that come as
an array are taken by one at the most, so there the verifiers agree if neither takes them;
and a header that comes as an array is read in two orders. -/
theorem verifiers_agree_iff (crates : Crates Key) (keys : Gateway.KeyMap Key) (cached fresh : Option (List Jwk))
    (same : SameKeys crates keys cached fresh) (token team expectedAud : String) (now : Nat) :
    (Agree crates keys cached fresh token team expectedAud now ↔
      ∀ t, opened crates token = some t → Balanced crates keys team expectedAud now t) ∧
    (∀ t header claims, t.header = .obj header ∧ t.claims = .obj claims → (Balanced crates keys team expectedAud now t ↔
      (Signed crates keys gatewayHeader t → Named team expectedAud now gatewayClaims t.claims →
        (Strict team gatewayClaims t.claims ↔ Timely now workerClaims t.claims)))) ∧
    (∀ t items, t.claims = .arr items → (Balanced crates keys team expectedAud now t ↔
      ¬(Signed crates keys gatewayHeader t ∧ GatewayArray team expectedAud now items) ∧
        ¬(Signed crates keys workerHeader t ∧ WorkerArray team expectedAud now items))) ∧
    ∀ t items, t.header = .arr items →
      (Signed crates keys gatewayHeader t ↔ ∃ kid key, items = [.str "RS256", .str kid] ∧ keys kid = some key ∧
        crates.verifySig key t.message t.sig = true) ∧
      (Signed crates keys workerHeader t ↔ ∃ kid key, items = [.str kid, .str "RS256"] ∧ keys kid = some key ∧
        crates.verifySig key t.message t.sig = true) :=
  ⟨agree_iff same, fun _ _ _ objects => balanced_objects objects, fun _ _ array => balanced_array array,
    fun _ _ array => signed_array array⟩

section Example
open Systems

def headerText : String := "\x7b\"alg\":\"RS256\",\"kid\":\"k\"\x7d"

def claimsText (late : String) : String :=
  "\x7b\"aud\":\"app\",\"exp\":9,\"iss\":\"https://t.cloudflareaccess.com\"" ++ late ++ "\x7d"

def claimsFields : List (String × Json) :=
  [("aud", .str "app"), ("exp", .unsigned 9), ("iss", .str "https://t.cloudflareaccess.com")]

/-- One key, which signed whatever comes. -/
def sampleCrates : Crates Unit where
  b64Decode := Base64.decode
  fromSlice text :=
    if text = bytes headerText then some (.obj [("alg", .str "RS256"), ("kid", .str "k")])
    else if text = bytes (claimsText "") then some (.obj claimsFields)
    else if text = bytes (claimsText ",\"nbf\":8") then some (.obj (claimsFields ++ [("nbf", .unsigned 8)]))
    else none
  publicKey _ _ := some ()
  verifySig _ _ _ := true

def sampleJwks : List Jwk := [⟨"k", "AQAB", "AQAB"⟩]

def sampleKeys : Gateway.KeyMap Unit := fun kid => [("k", ())].lookup kid

def sampleToken (late : String) : String :=
  Base64.encode (bytes headerText) ++ "." ++ Base64.encode (bytes (claimsText late)) ++ ".c2ln"

theorem sample_same : SameKeys sampleCrates sampleKeys (some sampleJwks) (some sampleJwks) := by
  have decoded : Base64.decode "AQAB" = some [1, 0, 1] := by decide +kernel
  apply same_keys (by decide)
  simp only [Gateway.initKeys, sampleCrates, sampleJwks, List.mapM_cons, decoded]
  rfl

theorem sample_parts (late : String) : split '.' (sampleToken late) =
    [Base64.encode (bytes headerText), Base64.encode (bytes (claimsText late)), "c2ln"] := by
  have plain (coded : List UInt8) : '.' ∉ (Base64.encode coded).toList := by
    intro member
    exact absurd (Base64.mem_alphabet_of_encode coded _ member) (by decide +kernel)
  have joined : sampleToken late =
      ".".intercalate [Base64.encode (bytes headerText), Base64.encode (bytes (claimsText late)), "c2ln"] := by
    change _ = Base64.encode (bytes headerText) ++ "." ++ Base64.encode (bytes (claimsText late)) ++ "." ++ "c2ln"
    rw [@String.append_assoc _ "." "c2ln"]
    rfl
  rw [joined]
  apply split_intercalate String.toList_ofList _ (by simp)
  simp [plain]

theorem sample_header : sampleCrates.fromSlice (bytes headerText) = some (.obj [("alg", .str "RS256"), ("kid", .str "k")]) := by
  simp only [sampleCrates, if_true]

theorem sample_claims : sampleCrates.fromSlice (bytes (claimsText "")) = some (.obj claimsFields) := by
  have apart : bytes (claimsText "") ≠ bytes headerText := by decide +kernel
  simp only [sampleCrates, if_neg apart, if_true]

theorem sample_later : sampleCrates.fromSlice (bytes (claimsText ",\"nbf\":8")) =
    some (.obj (claimsFields ++ [("nbf", .unsigned 8)])) := by
  have apart : bytes (claimsText ",\"nbf\":8") ≠ bytes headerText := by decide +kernel
  have longer : bytes (claimsText ",\"nbf\":8") ≠ bytes (claimsText "") := by decide +kernel
  simp only [sampleCrates, if_neg apart, if_neg longer, if_true]

theorem sample_opened {late : String} {fields : List (String × Json)}
    (parsed : sampleCrates.fromSlice (bytes (claimsText late)) = some (.obj fields)) :
    ∃ t, opened sampleCrates (sampleToken late) = some t ∧ t.header = .obj [("alg", .str "RS256"), ("kid", .str "k")] ∧
      t.claims = .obj fields := by
  have decoded : sampleCrates.b64Decode = Base64.decode := rfl
  have signature : Base64.decode "c2ln" = some [0x73, 0x69, 0x67] := by decide +kernel
  refine ⟨⟨.obj [("alg", .str "RS256"), ("kid", .str "k")], .obj fields,
    bytes (Base64.encode (bytes headerText) ++ "." ++ Base64.encode (bytes (claimsText late))), [0x73, 0x69, 0x67]⟩, ?_, rfl, rfl⟩
  apply opened_eq_some.mpr
  refine ⟨_, _, _, sample_parts late, ?_, ?_, ?_, ?_⟩
  · rw [decoded, Base64.decode_encode, Option.bind_some, sample_header]
  · rw [decoded, Base64.decode_encode, Option.bind_some, parsed]
  · dsimp only
  · rw [decoded, signature]

theorem sample_signed {t : Opened} (header : t.header = .obj [("alg", .str "RS256"), ("kid", .str "k")]) :
    Signed sampleCrates sampleKeys gatewayHeader t := by
  refine ⟨"k", (), ?_, ?_, by simp [sampleKeys], rfl⟩
  · simp [header, slot]
  · simp [header, slot]

/-- A token that may be used from 8 on is taken by the ingress at 5, and not by the worker. -/
theorem early_accepted :
    Gateway.verify sampleCrates (some "t") (some sampleKeys) (bytes (sampleToken ",\"nbf\":8")) "app" 5 = .ok () ∧
    (Worker.verifyAccessJwt sampleCrates (some sampleJwks) (some sampleJwks) (sampleToken ",\"nbf\":8")
      ("t" ++ ".cloudflareaccess.com") "app" 5).isSome = false ∧
    ¬Agree sampleCrates sampleKeys (some sampleJwks) (some sampleJwks) (sampleToken ",\"nbf\":8") "t" "app" 5 := by
  obtain ⟨t, opens, header, claims⟩ := sample_opened sample_later
  have gateway : Gateway.verify sampleCrates (some "t") (some sampleKeys) (bytes (sampleToken ",\"nbf\":8")) "app" 5 = .ok () := by
    have iss : slot t.claims gatewayClaims "iss" = some (some (.str (issuer "t"))) := by simp [claims, slot, claimsFields, issuer]
    refine gateway_accepts.mpr ⟨t, opens, sample_signed header, ⟨⟨.str "app", ?_, .inl rfl⟩, ⟨9, ?_, by decide⟩, _, iss,
      trimEndMatches_issuer⟩, fun _ list => ?_, iss⟩
    · simp [claims, slot, claimsFields]
    · simp [claims, slot, claimsFields]
    · simp [claims, slot, claimsFields] at list
  have worker : (Worker.verifyAccessJwt sampleCrates (some sampleJwks) (some sampleJwks) (sampleToken ",\"nbf\":8")
      ("t" ++ ".cloudflareaccess.com") "app" 5).isSome = false := by
    rw [Bool.eq_false_iff]
    intro taken
    obtain ⟨t', opens', _, _, ⟨⟨nbf, begins, begun⟩, _⟩⟩ := worker_accepts.mp taken
    cases opens.symm.trans opens'
    simp [claims, slot, claimsFields] at begins
    simp [← begins] at begun
  refine ⟨gateway, worker, fun agree => ?_⟩
  cases worker.symm.trans (agree.same.mp gateway)

/-- Without that time, both take it. -/
theorem sample_agree : Agree sampleCrates sampleKeys (some sampleJwks) (some sampleJwks) (sampleToken "") "t" "app" 5 := by
  obtain ⟨agree, objects, _⟩ := verifiers_agree_iff sampleCrates sampleKeys (some sampleJwks) (some sampleJwks) sample_same
    (sampleToken "") "t" "app" 5
  obtain ⟨t, opens, header, claims⟩ := sample_opened sample_claims
  apply agree.mpr
  intro t' opens'
  cases opens.symm.trans opens'
  apply (objects t _ _ ⟨header, claims⟩).mpr
  intro _ _
  rw [claims]
  apply iff_of_true
  · exact ⟨fun _ list => by simp [slot, claimsFields] at list, by simp [slot, claimsFields, issuer]⟩
  · exact ⟨⟨none, by simp [slot, claimsFields], .inl rfl⟩, none, by simp [slot, claimsFields], .inl rfl⟩

end Example

end LetsEmbed.Access
