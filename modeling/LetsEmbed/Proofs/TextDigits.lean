import LetsEmbed.Systems.Radix
import LetsEmbed.Text

/-! Strings of digits and the numbers they stand for. -/

namespace LetsEmbed.Text
open Systems

variable {radix bits : Nat} {c : Char} {digits : List Char}

def digitOf (radix : Nat) (c : Char) : Nat := (toDigit radix c).getD 0

def Digits (radix : Nat) (digits : List Char) : Prop := ∀ c ∈ digits, (toDigit radix c).isSome = true

theorem toDigit_lt {value : Nat} (read : toDigit radix c = some value) : value < radix := by
  have small := (Option.filter_eq_some_iff.mp read).2
  simpa using small

theorem digit_ascii (digit : (toDigit radix c).isSome = true) : c.toNat < 128 := by
  obtain ⟨value, read⟩ := Option.isSome_iff_exists.mp digit
  obtain ⟨made, _⟩ := Option.filter_eq_some_iff.mp read
  split at made
  next decimal => exact Nat.lt_of_le_of_lt (show c.toNat ≤ '9'.toNat from decimal.2) (by decide)
  split at made
  next lower => exact Nat.lt_of_le_of_lt (show c.toNat ≤ 'z'.toNat from lower.2) (by decide)
  split at made
  next upper => exact Nat.lt_of_le_of_lt (show c.toNat ≤ 'Z'.toNat from upper.2) (by decide)
  · cases made

theorem byteLength_digits (spelled : Digits radix digits) : byteLength (String.ofList digits) = digits.length := by
  have ones : digits.map Char.utf8Size = digits.map fun _ => 1 :=
    List.map_congr_left fun c member => Char.utf8Size_eq_one_iff.mpr (Nat.le_of_lt_succ (digit_ascii (spelled c member)))
  rw [byteLength, String.toList_ofList, ones, List.map_const', List.sum_replicate]
  exact Nat.mul_one _

theorem digitOf_lt (digit : (toDigit radix c).isSome = true) : digitOf radix c < radix := by
  obtain ⟨value, read⟩ := Option.isSome_iff_exists.mp digit
  rw [digitOf, read]
  exact toDigit_lt read

theorem digits_lt (spelled : Digits radix digits) : ∀ value ∈ digits.map (digitOf radix), value < radix := by
  intro value member
  obtain ⟨c, inside, rfl⟩ := List.mem_map.mp member
  exact digitOf_lt (spelled c inside)

theorem digitsValue_eq (spelled : Digits radix digits) :
    digitsValue radix digits = some (Radix.value radix (digits.map (digitOf radix))) := by
  have general (start : Nat) : digits.foldlM (fun value c => (toDigit radix c).map (value * radix + ·)) start =
      some ((digits.map (digitOf radix)).foldl (fun value digit => value * radix + digit) start) := by
    induction digits generalizing start with
    | nil => rfl
    | cons c rest ih =>
      obtain ⟨first, others⟩ := List.forall_mem_cons.mp spelled
      obtain ⟨value, read⟩ := Option.isSome_iff_exists.mp first
      rw [List.foldlM_cons, List.map_cons, List.foldl_cons, digitOf, read]
      exact ih others _
  exact general 0

theorem fromStrRadix_eq (spelled : Digits radix digits) (nonempty : digits ≠ []) (plus : toDigit radix '+' = none) :
    fromStrRadix bits radix (String.ofList digits) =
      (some (Radix.value radix (digits.map (digitOf radix)))).filter (· < 2 ^ bits) := by
  rw [fromStrRadix, String.toList_ofList]
  cases digits with
  | nil => cases nonempty rfl
  | cons c rest =>
    have unsigned : c ≠ '+' := by
      intro signed
      have first := spelled c List.mem_cons_self
      rw [signed, plus] at first
      cases first
    split
    next signed => cases unsigned (List.cons.inj signed).1
    next => rw [List.isEmpty_cons, if_neg Bool.false_ne_true, digitsValue_eq spelled]

theorem digitsValue_eq_some {n : Nat} : digitsValue radix digits = some n ↔
    Digits radix digits ∧ Radix.value radix (digits.map (digitOf radix)) = n := by
  have spelled : ∀ start, digits.foldlM (fun value c => (toDigit radix c).map (value * radix + ·)) start = some n →
      Digits radix digits := by
    induction digits with
    | nil => exact fun _ _ => List.forall_mem_nil _
    | cons c rest ih =>
      intro start read
      rw [List.foldlM_cons] at read
      obtain ⟨value, first, more⟩ := Option.bind_eq_some_iff.mp read
      obtain ⟨digit, found, _⟩ := Option.map_eq_some_iff.mp first
      exact List.forall_mem_cons.mpr ⟨Option.isSome_of_eq_some found, ih value more⟩
  constructor
  · intro read
    have all := spelled 0 read
    rw [digitsValue_eq all] at read
    exact ⟨all, Option.some.inj read⟩
  · intro ⟨all, value⟩
    rw [digitsValue_eq all, value]

/-- What is read is some digits, after a plus sign or not. -/
theorem fromStrRadix_eq_some {chars : List Char} {n : Nat} : fromStrRadix bits radix (String.ofList chars) = some n ↔
    ∃ digits, digits = (if chars.head? = some '+' then chars.tail else chars) ∧ digits ≠ [] ∧ Digits radix digits ∧
      Radix.value radix (digits.map (digitOf radix)) = n ∧ n < 2 ^ bits := by
  have reading (unsigned : List Char) :
      (if unsigned.isEmpty then none else (digitsValue radix unsigned).filter (· < 2 ^ bits)) = some n ↔
        ∃ digits, digits = unsigned ∧ digits ≠ [] ∧ Digits radix digits ∧
          Radix.value radix (digits.map (digitOf radix)) = n ∧ n < 2 ^ bits := by
    rw [exists_eq_left]
    split
    next empty => simp [List.isEmpty_iff.mp empty]
    next filled =>
      rw [Option.filter_eq_some_iff, digitsValue_eq_some, decide_eq_true_iff]
      simp [mt List.isEmpty_iff.mpr filled, and_assoc]
  rw [fromStrRadix, String.toList_ofList]
  split
  next rest => exact reading rest
  next unsigned =>
    have plain : chars.head? ≠ some '+' := by
      intro plus
      obtain ⟨rest, signed⟩ := List.head?_eq_some_iff.mp plus
      exact unsigned rest signed
    rw [if_neg plain]
    exact reading chars

/-- A letter stands for ten or more. -/
theorem digitOf_eq_zero (digit : (toDigit radix c).isSome = true) : digitOf radix c = 0 ↔ c = '0' := by
  obtain ⟨value, read⟩ := Option.isSome_iff_exists.mp digit
  rw [digitOf, read, Option.getD_some]
  obtain ⟨made, _⟩ := Option.filter_eq_some_iff.mp read
  split at made
  next decimal =>
    have low : '0'.toNat ≤ c.toNat := decimal.1
    cases made
    constructor
    · intro zero
      exact Char.toNat_inj.mp (by omega)
    · intro same
      rw [same]
      exact Nat.sub_self _
  have large : value ≠ 0 := by
    split at made
    · cases made
      exact Nat.succ_ne_zero _
    split at made
    · cases made
      exact Nat.succ_ne_zero _
    · cases made
  next other =>
    refine iff_of_false large fun same => other ?_
    rw [same]
    decide

theorem value_eq_zero (spelled : Digits radix digits) :
    Radix.value radix (digits.map (digitOf radix)) = 0 ↔ ∀ c ∈ digits, c = '0' := by
  induction digits with
  | nil => exact iff_of_true rfl (List.forall_mem_nil _)
  | cons c rest ih =>
    obtain ⟨first, others⟩ := List.forall_mem_cons.mp spelled
    have positive : 0 < radix ^ (rest.map (digitOf radix)).length := Nat.pow_pos (Nat.zero_lt_of_lt (digitOf_lt first))
    rw [List.map_cons, Radix.value_cons, Nat.add_eq_zero_iff, Nat.mul_eq_zero, or_iff_left positive.ne', ih others,
      digitOf_eq_zero first, List.forall_mem_cons]

theorem decimal_digit (digit : c.isDigit = true) : (toDigit 10 c).isSome = true ∧ digitOf 10 c = c.toNat - '0'.toNat := by
  have bounds : '0' ≤ c ∧ c ≤ '9' := by
    rw [Char.isDigit, Bool.and_eq_true, decide_eq_true_iff, decide_eq_true_iff] at digit
    exact digit
  have high : c.toNat ≤ '9'.toNat := bounds.2
  have small : c.toNat - '0'.toNat < 10 := Nat.lt_of_le_of_lt (Nat.sub_le_sub_right high _) (by decide)
  have read : toDigit 10 c = some (c.toNat - '0'.toNat) := by
    rw [toDigit, if_pos bounds]
    exact Option.filter_some_pos (decide_eq_true small)
  rw [digitOf, read]
  exact ⟨rfl, rfl⟩

theorem fromStrRadix_toString {n : Nat} (fits : n < 2 ^ bits) : fromStrRadix bits 10 (toString n) = some n := by
  have decimal : ∀ c ∈ Nat.toDigits 10 n, c.isDigit = true := fun _ member =>
    Nat.isDigit_of_mem_toDigits (by decide) (by decide) member
  have spelled : Digits 10 (Nat.toDigits 10 n) := fun c member => (decimal_digit (decimal c member)).1
  have value : Radix.value 10 ((Nat.toDigits 10 n).map (digitOf 10)) = n := by
    have read := @Nat.ofDigitChars_ten_toDigits n
    rw [Nat.ofDigitChars_eq_foldl] at read
    rw [Radix.value, List.foldl_map]
    refine Eq.trans ?_ read
    apply List.foldl_ext
    intro value c member
    rw [(decimal_digit (decimal c member)).2, Nat.mul_comm]
  rw [Nat.toString_eq_ofList_toDigits, fromStrRadix_eq spelled Nat.toDigits_ne_nil (by decide), value]
  exact Option.filter_some_pos (decide_eq_true fits)

end LetsEmbed.Text
