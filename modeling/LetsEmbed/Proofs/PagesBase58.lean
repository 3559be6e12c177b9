import LetsEmbed.Pages
import LetsEmbed.Proofs.SessionPrincipals

/-! The base58 of the pages. Where the usual one starts with no digit at all, this one
starts with a zero, which the last byte of an all-zero input keeps. -/

namespace LetsEmbed.Pages
open Session Systems Radix

variable {n carry digit : Nat} {digits : List Nat} {bytes : List UInt8}

/-- The digits of a number from the least, where zero has one as well. -/
def spelling (n : Nat) : List Nat := if n = 0 then [0] else Nat.digits 58 n

theorem pushCarry_eq (carry : Nat) : pushCarry carry = Nat.digits 58 carry := by
  induction carry using Nat.strongRecOn with
  | ind carry ih =>
    rw [pushCarry]
    split
    next positive =>
      rw [ih (carry / 58) (Nat.div_lt_self positive (by decide)), Nat.digits_def' (by decide) positive]
    next zero =>
      rw [Nat.eq_zero_of_not_pos zero, Nat.digits_zero]

/-- One digit of the number takes the carry and hands on what exceeds it. -/
theorem carry_digit :
    ((58 * n + digit) * 256 + carry) % 58 = (carry + digit <<< 8) % 58 ∧
      ((58 * n + digit) * 256 + carry) / 58 = n * 256 + (carry + digit <<< 8) / 58 := by
  have regrouped : (58 * n + digit) * 256 + carry = (carry + digit <<< 8) + 58 * (n * 256) := by
    rw [Nat.shiftLeft_eq]
    omega
  rw [regrouped, Nat.add_mul_mod_self_left, Nat.add_mul_div_left _ _ (by decide), Nat.add_comm (n * 256)]
  exact ⟨rfl, rfl⟩

theorem carryThrough_digits (n carry : Nat) :
    (carryThrough carry (Nat.digits 58 n)).1 ++ Nat.digits 58 (carryThrough carry (Nat.digits 58 n)).2 =
      Nat.digits 58 (n * 256 + carry) := by
  induction n using Nat.strongRecOn generalizing carry with
  | ind n ih =>
    cases n.eq_zero_or_pos with
    | inl zero => simp [zero, carryThrough]
    | inr positive =>
      have divided := Nat.div_add_mod n 58
      obtain ⟨low, high⟩ := @carry_digit (n / 58) carry (n % 58)
      rw [divided] at low high
      have before : Nat.digits 58 n = n % 58 :: Nat.digits 58 (n / 58) := Nat.digits_def' (by decide) positive
      have after : Nat.digits 58 (n * 256 + carry) = (n * 256 + carry) % 58 :: Nat.digits 58 ((n * 256 + carry) / 58) :=
        Nat.digits_def' (by decide) (by omega)
      rw [before, after, low, high, ← ih (n / 58) (Nat.div_lt_self positive (by decide))]
      rfl

/-- One byte more. -/
theorem encodeByte_spelling (byte : UInt8) : encodeByte (spelling n) byte = spelling (n * 256 + byte.toNat) := by
  rw [encodeByte]
  dsimp only
  rw [pushCarry_eq]
  by_cases zero : n = 0
  · -- the zero that an all-zero input starts with takes the place of the first digit
    rw [zero, spelling, if_pos rfl, Nat.zero_mul, Nat.zero_add, spelling]
    split
    next noByte => rw [noByte]; rfl
    next someByte =>
      rw [Nat.digits_def' (by decide) (Nat.pos_of_ne_zero someByte)]
      simp [carryThrough]
  · have more : n * 256 + byte.toNat ≠ 0 := by omega
    rw [spelling, if_neg zero, spelling, if_neg more]
    exact carryThrough_digits n byte.toNat

theorem foldl_spelling (bytes : List UInt8) :
    bytes.foldl encodeByte (spelling n) =
      spelling ((bytes.map UInt8.toNat).foldl (fun value digit => value * 256 + digit) n) := by
  induction bytes generalizing n with
  | nil => rfl
  | cons byte rest ih => rw [List.foldl_cons, encodeByte_spelling, ih]; rfl

/-- The loop stops one digit short, where a zero has a digit of its own. -/
theorem zeros_and_spelling (nonempty : digits ≠ []) :
    List.replicate ((digits.take (digits.length - 1)).takeWhile (· == 0)).length 0 ++ (spelling (value 256 digits)).reverse =
      recode 256 58 digits := by
  obtain ⟨zeros, rest, rfl, led⟩ := leading_zeros digits
  rw [recode_zeros zeros led, value_zeros]
  cases rest with
  | nil =>
    rw [List.append_nil] at nonempty ⊢
    obtain ⟨short, rfl⟩ : ∃ short, zeros = short + 1 := Nat.exists_eq_add_one_of_ne_zero (by simpa using nonempty)
    have counted := count_zeros short led
    rw [List.append_nil] at counted
    have nothing : value 256 [] = 0 := rfl
    rw [List.length_replicate, List.take_replicate, Nat.add_sub_cancel, Nat.min_eq_left (Nat.le_succ short), counted, nothing,
      Nat.digits_zero, List.reverse_nil, List.append_nil, List.replicate_succ']
    rfl
  | cons digit more =>
    have first : digit ≠ 0 := by simpa using led
    have short : (List.replicate zeros 0 ++ digit :: more).take ((List.replicate zeros 0 ++ digit :: more).length - 1) =
        List.replicate zeros 0 ++ (digit :: more).take more.length := by
      rw [List.length_append, List.length_replicate, List.length_cons, Nat.add_succ_sub_one, List.take_append,
        List.length_replicate, List.take_of_length_le (by simp), Nat.add_sub_cancel_left]
    have stillLed : ((digit :: more).take more.length).head? ≠ some 0 := by
      cases more with
      | nil => simp
      | cons other others => simpa using first
    have positive : value 256 (digit :: more) ≠ 0 := by
      rw [value_cons]
      have := Nat.mul_pos (Nat.pos_of_ne_zero first) (Nat.pow_pos (n := more.length) (by decide : 0 < 256))
      omega
    rw [short, count_zeros zeros stillLed, spelling, if_neg positive]

/-- Zero bytes are counted as zero digits. -/
theorem zero_bytes (bytes : List UInt8) :
    (bytes.takeWhile (· == 0)).length = ((bytes.map UInt8.toNat).takeWhile (· == 0)).length := by
  have same : (fun digit => digit == 0) ∘ UInt8.toNat = fun byte : UInt8 => byte == 0 := by
    funext byte
    rw [Function.comp, Bool.eq_iff_iff, beq_iff_eq, beq_iff_eq, ← UInt8.toNat_inj]
    rfl
  rw [List.takeWhile_map, List.length_map, same]

theorem bs58encode_eq (bytes : List UInt8) : bs58encode bytes = base58Encode (bytes.map UInt8.toNat) := by
  have letters : letter base58Alphabet = fun digit => alph.getD digit default := rfl
  have spelled : bytes.foldl encodeByte [0] = spelling (value 256 (bytes.map UInt8.toNat)) := @foldl_spelling 0 bytes
  rw [bs58encode]
  split
  next empty =>
    rw [List.eq_nil_of_length_eq_zero empty]
    rfl
  next nonempty =>
    have named : bytes.map UInt8.toNat ≠ [] := by simpa using nonempty
    rw [base58Encode, ← zeros_and_spelling named, List.map_append, List.map_replicate, letters, spelled, zero_bytes, List.map_take,
      List.length_map]
    rfl

/-- Only the digit zero is written as a one. -/
theorem letter_one : ∀ digit < 58, (letter base58Alphabet digit == '1') = (digit == 0) := by decide

theorem leading_ones (key : List Nat) :
    ((base58Encode key).toList.takeWhile (· == '1')).length = (key.takeWhile (· == 0)).length := by
  obtain ⟨zeros, rest, rfl, led⟩ := leading_zeros key
  have small : ∀ digit ∈ recode 256 58 (List.replicate zeros 0 ++ rest), digit < 58 := recode_lt (by decide)
  have same : ∀ digits : List Nat, (∀ digit ∈ digits, digit < 58) →
      ((digits.map (letter base58Alphabet)).takeWhile (· == '1')).length = (digits.takeWhile (· == 0)).length := by
    intro digits small
    induction digits with
    | nil => rfl
    | cons digit more ih =>
      obtain ⟨first, others⟩ := List.forall_mem_cons.mp small
      rw [List.map_cons, List.takeWhile_cons, List.takeWhile_cons, letter_one digit first]
      split
      · rw [List.length_cons, List.length_cons, ih others]
      · rfl
  rw [base58Encode, String.toList_ofList, same _ small, recode_zeros zeros led, count_zeros zeros (digits_led _),
    count_zeros zeros led]

theorem bytes_lt (bytes : List UInt8) : ∀ byte ∈ bytes.map UInt8.toNat, byte < 256 := by
  intro digit member
  obtain ⟨byte, _, rfl⟩ := List.mem_map.mp member
  exact byte.toNat_lt

/-- What the pages write is read back by any base58 decoder, with a one for each zero
byte in front, and is not written for any other bytes. -/
theorem bs58encode_canonical (bytes : List UInt8) :
    base58Decode (bs58encode bytes) = some (bytes.map UInt8.toNat) ∧
      ((bs58encode bytes).toList.takeWhile (· == '1')).length = (bytes.takeWhile (· == 0)).length ∧
      ∀ other, bs58encode other = bs58encode bytes → other = bytes := by
  have decoded (bytes : List UInt8) : base58Decode (bs58encode bytes) = some (bytes.map UInt8.toNat) :=
    base58Decode_eq_some.mpr ⟨bytes_lt bytes, bs58encode_eq bytes⟩
  refine ⟨decoded bytes, ?_, ?_⟩
  · rw [bs58encode_eq, leading_ones, zero_bytes]
  · intro other same
    have keys : other.map UInt8.toNat = bytes.map UInt8.toNat := by
      apply Option.some.inj
      rw [← decoded other, same, decoded bytes]
    exact List.map_injective_iff.mpr (fun first second => UInt8.toNat_inj.mp) keys

end LetsEmbed.Pages
