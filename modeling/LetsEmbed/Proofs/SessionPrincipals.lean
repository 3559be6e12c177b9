import LetsEmbed.Proofs.PaymentsRules
import LetsEmbed.Systems.Radix

/-! What accounts and payments are named by: keys of a wallet and hashes of a
transaction, written in hex or in base58. Neither spelling leaves a choice, and
the two never meet. -/

namespace LetsEmbed.Session
open Text Systems Radix

def base58Encode (key : List Nat) : String := String.ofList ((recode 256 58 key).map (letter base58Alphabet))

theorem base58Alphabet_nodup : base58Alphabet.Nodup := by decide

theorem base58Decode_eq_some {s : String} {key : List Nat} :
    base58Decode s = some key ↔ (∀ byte ∈ key, byte < 256) ∧ s = base58Encode key := by
  have recoded : base58Decode s = (s.toList.mapM (base58Alphabet.idxOf? ·)).map (recode 58 256) := rfl
  rw [recoded, Option.map_eq_some_iff]
  constructor
  · rintro ⟨digits, spelled, rfl⟩
    obtain ⟨small, letters⟩ := (mapM_letters base58Alphabet_nodup).mp spelled
    have back : recode 256 58 (recode 58 256 digits) = digits := recode_recode (by decide) small
    refine ⟨recode_lt (by decide), ?_⟩
    rw [base58Encode, back, ← letters, String.ofList_toList]
  · rintro ⟨small, rfl⟩
    refine ⟨recode 256 58 key, (mapM_letters base58Alphabet_nodup).mpr ⟨recode_lt (by decide), ?_⟩, recode_recode (by decide) small⟩
    rw [base58Encode, String.toList_ofList]

def Base58 (size : Nat) (s : String) : Prop := ∃ key, base58Decode s = some key ∧ key.length = size

theorem base58_iff {size : Nat} {s : String} :
    Base58 size s ↔ ∃ key : List UInt8, key.length = size ∧ s = base58Encode (key.map UInt8.toNat) := by
  constructor
  · rintro ⟨key, decoded, length⟩
    obtain ⟨small, spelled⟩ := base58Decode_eq_some.mp decoded
    have bytes : (key.map UInt8.ofNat).map UInt8.toNat = key := by
      rw [List.map_map]
      exact (List.map_congr_left fun byte member => UInt8.toNat_ofNat_of_lt' (small byte member)).trans (List.map_id _)
    exact ⟨key.map UInt8.ofNat, by rw [List.length_map, length], by rw [bytes, spelled]⟩
  · rintro ⟨key, length, rfl⟩
    refine ⟨key.map UInt8.toNat, base58Decode_eq_some.mpr ⟨?_, rfl⟩, by rw [List.length_map, length]⟩
    intro byte member
    obtain ⟨small, _, rfl⟩ := List.mem_map.mp member
    exact small.toNat_lt

theorem byteLength_base58Encode {key : List Nat} : byteLength (base58Encode key) = (recode 256 58 key).length := by
  have ascii : ∀ digit < 58, (letter base58Alphabet digit).utf8Size = 1 := by decide
  rw [byteLength, base58Encode, String.toList_ofList, List.map_map]
  have ones : (recode 256 58 key).map (Char.utf8Size ∘ letter base58Alphabet) = (recode 256 58 key).map fun _ => 1 :=
    List.map_congr_left fun digit member => ascii digit (recode_lt (by decide) digit member)
  rw [ones]
  simp

/-- The bounds on the length bound the work only: 256^32 lies below 58^44, and 32
bytes never take fewer than 32 characters. -/
theorem isSolPrincipal_iff {s : String} : isSolPrincipal s = true ↔ Base58 32 s := by
  rw [isSolPrincipal, Bool.and_eq_true, decide_eq_true_iff, Option.any_eq_true]
  constructor
  · rintro ⟨_, key, decoded, length⟩
    exact ⟨key, decoded, eq_of_beq length⟩
  · rintro ⟨key, decoded, length⟩
    obtain ⟨small, rfl⟩ := base58Decode_eq_some.mp decoded
    rw [byteLength_base58Encode]
    refine ⟨⟨?_, ?_⟩, key, decoded, beq_iff_eq.mpr length⟩
    · rw [← length]
      exact length_le_recode (by decide) (by decide) small
    · exact recode_length_le (by decide) (by decide) small length.le (by decide) (by norm_num)

theorem validSignature_iff {s : String} : Solana.validSignature s = true ↔ Base58 64 s := by
  rw [Solana.validSignature, Option.any_eq_true]
  exact exists_congr fun key => and_congr_right fun _ => beq_iff_eq

/-- Two characters are one byte (`hex::decode`). -/
def hexBytes : List Char → Option (List Nat)
  | [] => some []
  | [_] => none
  | high :: low :: rest => do
    let h ← toDigit 16 high
    let l ← toDigit 16 low
    let more ← hexBytes rest
    pure ((h * 16 + l) :: more)

/-- In lower case a value has one digit only. -/
theorem toDigit_lower {c : Char} (lower : isLowerHexDigit c = true) :
    ∃ value < 16, toDigit 16 c = some value ∧ Nat.digitChar value = c := by
  have every : ∀ n < 128, isLowerHexDigit (Char.ofNat n) = true →
      ∃ value < 16, toDigit 16 (Char.ofNat n) = some value ∧ Nat.digitChar value = Char.ofNat n := by decide +kernel
  have ascii : c.toNat < 128 := by
    simp only [isLowerHexDigit, Bool.or_eq_true, Bool.and_eq_true, decide_eq_true_eq] at lower
    rcases lower with ⟨_, high⟩ | ⟨_, high⟩
    · exact Nat.lt_of_le_of_lt high (by decide)
    · exact Nat.lt_of_le_of_lt high (by decide)
  rw [← Char.ofNat_toNat c] at lower ⊢
  exact every c.toNat ascii lower

theorem hexBytes_lower {chars : List Char} {size : Nat} (even : chars.length = 2 * size)
    (lower : chars.all isLowerHexDigit = true) : ∃ bytes, hexBytes chars = some bytes ∧ bytes.length = size ∧
      bytes.flatMap (fun byte => [Nat.digitChar (byte / 16), Nat.digitChar (byte % 16)]) = chars := by
  fun_induction hexBytes chars generalizing size with
  | case1 =>
    rw [List.length_nil] at even
    exact ⟨[], rfl, by rw [List.length_nil]; omega, rfl⟩
  | case2 => rw [List.length_singleton] at even; omega
  | case3 high low rest ih =>
    simp only [List.all_cons, Bool.and_eq_true] at lower
    obtain ⟨h, _, highDigit, highSame⟩ := toDigit_lower lower.1
    obtain ⟨l, small, lowDigit, lowSame⟩ := toDigit_lower lower.2.1
    obtain ⟨more, decoded, counted, spelled⟩ := @ih (size - 1) (by simp only [List.length_cons] at even; omega) lower.2.2
    refine ⟨(h * 16 + l) :: more, ?_, ?_, ?_⟩
    · simp [highDigit, lowDigit, decoded]
    · rw [List.length_cons] at even ⊢
      omega
    · have upper : (h * 16 + l) / 16 = h := by omega
      have under : (h * 16 + l) % 16 = l := by omega
      rw [List.flatMap_cons, upper, under, highSame, lowSame, spelled]
      rfl

def Hex (size : Nat) (s : String) : Prop :=
  ∃ digits, stripPrefix "0x" s = some digits ∧ digits.toList.length = 2 * size ∧ digits.toList.all isLowerHexDigit = true

theorem isEthAddress_iff {s : String} : isEthAddress s = true ↔ Hex 20 s := by
  rw [isEthAddress]
  split
  next digits hex => simp [Hex, hex]
  next other => simp [Hex, other]

theorem validTxHash_iff {s : String} : Payments.validTxHash s = true ↔ Hex 32 s := by
  rw [Payments.validTxHash]
  split
  next digits hex => simp [Hex, hex]
  next other => simp [Hex, other]

/-- The bytes a name stands for. -/
def denoted (s : String) : Option (List Nat) :=
  match stripPrefix "0x" s with
  | some digits => hexBytes digits.toList
  | none => base58Decode s

theorem denoted_hex {size : Nat} {s : String} (hex : Hex size s) : ∃ key, denoted s = some key ∧ key.length = size ∧
    String.ofList ("0x".toList ++ key.flatMap fun byte => [Nat.digitChar (byte / 16), Nat.digitChar (byte % 16)]) = s := by
  obtain ⟨digits, taken, even, lower⟩ := hex
  obtain ⟨bytes, decoded, counted, spelled⟩ := hexBytes_lower even lower
  refine ⟨bytes, by rw [denoted, taken]; exact decoded, counted, ?_⟩
  rw [spelled, ← stripPrefix_eq_some.mp taken, String.ofList_toList]

theorem denoted_base58 {size : Nat} {s : String} (base58 : Base58 size s) :
    ∃ key, denoted s = some key ∧ key.length = size ∧ base58Encode key = s := by
  obtain ⟨key, decoded, counted⟩ := base58
  have plain : stripPrefix "0x" s = none := by
    rw [← Option.not_isSome_iff_eq_none]
    intro hex
    obtain ⟨digits, taken⟩ := Option.isSome_iff_exists.mp hex
    cases (base58Decode_hex taken).symm.trans decoded
  refine ⟨key, by rw [denoted, plain]; exact decoded, counted, (base58Decode_eq_some.mp decoded).2.symm⟩

/-- The two spellings are of keys that differ in length, so no key has both. -/
theorem denoted_injOn {m n : Nat} (apart : m ≠ n) : Set.InjOn denoted {s | Hex m s ∨ Base58 n s} := by
  intro s accepted t accepted' same
  rcases accepted with hex | base58
  · obtain ⟨key, named, counted, spelled⟩ := denoted_hex hex
    rcases accepted' with hex' | base58'
    · obtain ⟨key', named', _, spelled'⟩ := denoted_hex hex'
      cases named.symm.trans (same.trans named')
      rw [← spelled, spelled']
    · obtain ⟨key', named', counted', _⟩ := denoted_base58 base58'
      cases named.symm.trans (same.trans named')
      exact absurd (counted.symm.trans counted') apart
  · obtain ⟨key, named, counted, spelled⟩ := denoted_base58 base58
    rcases accepted' with hex' | base58'
    · obtain ⟨key', named', counted', _⟩ := denoted_hex hex'
      cases named.symm.trans (same.trans named')
      exact absurd (counted'.symm.trans counted) apart
    · obtain ⟨key', named', _, spelled'⟩ := denoted_base58 base58'
      cases named.symm.trans (same.trans named')
      rw [← spelled, spelled']

theorem not_hex_and_base58 {m n : Nat} {s : String} : ¬(Hex m s ∧ Base58 n s) := by
  rintro ⟨⟨digits, taken, _⟩, ⟨key, decoded, _⟩⟩
  cases (base58Decode_hex taken).symm.trans decoded

theorem isValidPrincipal_iff {s : String} : isValidPrincipal s = true ↔ Hex 20 s ∨ Base58 32 s := by
  rw [isValidPrincipal, Bool.or_eq_true, isEthAddress_iff, isSolPrincipal_iff]

/-- An account has one name and a transaction one row: whoever holds a key has a
single spelling of it, and so does whoever pays once. -/
theorem named_once (st : Payments.AppState) :
    (∀ s, isSolPrincipal s = true ↔ ∃ key : List UInt8, key.length = 32 ∧ s = base58Encode (key.map UInt8.toNat)) ∧
    (∀ s, ¬(isEthAddress s = true ∧ isSolPrincipal s = true)) ∧
    Set.MapsTo (fun s => (denoted s).map List.length) {s | isValidPrincipal s = true} {some 20, some 32} ∧
    Set.InjOn denoted {s | isValidPrincipal s = true} ∧
    (∀ spec text, ∀ s ∈ Payments.rowKey st spec text, Payments.validTxHash s = true ∨ Solana.validSignature s = true) ∧
    (∀ s, ¬(Payments.validTxHash s = true ∧ Solana.validSignature s = true)) ∧
    Set.MapsTo (fun s => (denoted s).map List.length)
      {s | Payments.validTxHash s = true ∨ Solana.validSignature s = true} {some 32, some 64} ∧
    Set.InjOn denoted {s | Payments.validTxHash s = true ∨ Solana.validSignature s = true} := by
  have sizes {m n : Nat} : Set.MapsTo (fun s => (denoted s).map List.length) {s | Hex m s ∨ Base58 n s} {some m, some n} := by
    intro s accepted
    rcases accepted with hex | base58
    · obtain ⟨key, named, counted, _⟩ := denoted_hex hex
      exact .inl (by simp only [named, Option.map_some, counted])
    · obtain ⟨key, named, counted, _⟩ := denoted_base58 base58
      exact .inr (by simp only [named, Option.map_some, counted, Set.mem_singleton_iff])
  simp only [isValidPrincipal_iff, isEthAddress_iff, isSolPrincipal_iff, validTxHash_iff, validSignature_iff]
  refine ⟨fun s => base58_iff, fun s => not_hex_and_base58, sizes, denoted_injOn (by decide), ?_,
    fun s => not_hex_and_base58, sizes, denoted_injOn (by decide)⟩
  intro spec text s named
  rw [Payments.rowKey, Option.mem_def] at named
  split at named
  · obtain ⟨valid, same⟩ := Option.ite_none_right_eq_some.mp named
    cases same
    exact .inl (validTxHash_iff.mp valid)
  · obtain ⟨valid, same⟩ := Option.ite_none_right_eq_some.mp named
    cases same
    exact .inr (validSignature_iff.mp valid)

example : isValidPrincipal "7Np41oeYqPefeNQEHSv1UDhYrehxin3NStELsSKCT4K2" = true ∧
    isValidPrincipal "0xd8da6bf26964af9d7eed9e03e53415d37aa96045" = true := by decide +kernel

end LetsEmbed.Session
