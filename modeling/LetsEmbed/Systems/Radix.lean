import Mathlib.Data.Nat.Digits.Lemmas

/-! Strings of digits read in one base and written in another. Leading zeros are
carried over one by one and the rest as one big-endian number, so that no digit is
lost on the way and the way back is the same function. -/

namespace Systems.Radix

def value (b : Nat) (digits : List Nat) : Nat := digits.foldl (fun value digit => value * b + digit) 0

def recode (b c : Nat) (digits : List Nat) : List Nat :=
  List.replicate (digits.takeWhile (· == 0)).length 0 ++ (Nat.digits c (value b digits)).reverse

/-- A number in a fixed number of digits, of which the last are kept. -/
def spelled (b : Nat) : (width n : Nat) → List Nat
  | 0, _ => []
  | width + 1, n => spelled b width (n / b) ++ [n % b]

variable {b c width n : Nat} {digits rest : List Nat}

theorem value_eq_ofDigits : value b digits = Nat.ofDigits b digits.reverse := by
  rw [Nat.ofDigits_eq_foldr, List.foldr_reverse, value]
  congr 1
  funext value digit
  rw [Nat.mul_comm, Nat.add_comm]
  rfl

/-- Every string of digits is its leading zeros and a number spelled without any. -/
theorem leading_zeros (digits : List Nat) :
    ∃ zeros rest, digits = List.replicate zeros 0 ++ rest ∧ rest.head? ≠ some 0 := by
  induction digits with
  | nil => exact ⟨0, [], rfl, by simp⟩
  | cons digit more ih =>
    by_cases zero : digit = 0
    · obtain ⟨zeros, rest, split, led⟩ := ih
      exact ⟨zeros + 1, rest, by rw [zero, split, List.replicate_succ, List.cons_append], led⟩
    · exact ⟨0, digit :: more, rfl, by simpa using zero⟩

theorem value_zeros (zeros : Nat) : value b (List.replicate zeros 0 ++ rest) = value b rest := by
  rw [value_eq_ofDigits, value_eq_ofDigits, List.reverse_append, List.reverse_replicate,
    Nat.ofDigits_append_replicate_zero]

theorem value_append : value b (digits ++ rest) = value b digits * b ^ rest.length + value b rest := by
  rw [value_eq_ofDigits, value_eq_ofDigits, value_eq_ofDigits, List.reverse_append, Nat.ofDigits_append, List.length_reverse,
    Nat.add_comm, Nat.mul_comm]

theorem value_cons {digit : Nat} : value b (digit :: rest) = digit * b ^ rest.length + value b rest := by
  have split := @value_append b [digit] rest
  simpa [value] using split

theorem length_spelled : (spelled b width n).length = width := by
  induction width generalizing n with
  | zero => rfl
  | succ width ih => rw [spelled, List.length_append, ih, List.length_singleton]

theorem spelled_lt (positive : 0 < b) : ∀ digit ∈ spelled b width n, digit < b := by
  induction width generalizing n with
  | zero => exact List.forall_mem_nil _
  | succ width ih =>
    intro digit member
    cases List.mem_append.mp member with
    | inl high => exact ih digit high
    | inr last =>
      rw [List.mem_singleton.mp last]
      exact Nat.mod_lt n positive

theorem value_spelled : value b (spelled b width n) = n % b ^ width := by
  induction width generalizing n with
  | zero => rw [Nat.pow_zero, Nat.mod_one]; rfl
  | succ width ih =>
    rw [spelled, value_append, ih, Nat.pow_succ', Nat.mod_mul]
    simp [value, Nat.add_comm, Nat.mul_comm]

theorem count_zeros (zeros : Nat) (led : rest.head? ≠ some 0) :
    ((List.replicate zeros 0 ++ rest).takeWhile (· == 0)).length = zeros := by
  rw [List.takeWhile_append_of_pos (by simp), List.length_append, List.length_replicate]
  cases rest with
  | nil => rfl
  | cons digit more =>
    have nonzero : digit ≠ 0 := by simpa using led
    rw [List.takeWhile_cons_of_neg (by simpa using nonzero)]
    rfl

theorem recode_zeros (zeros : Nat) (led : rest.head? ≠ some 0) :
    recode b c (List.replicate zeros 0 ++ rest) = List.replicate zeros 0 ++ (Nat.digits c (value b rest)).reverse := by
  rw [recode, count_zeros zeros led, value_zeros]

theorem value_digits (n : Nat) : value b (Nat.digits b n).reverse = n := by
  rw [value_eq_ofDigits, List.reverse_reverse, Nat.ofDigits_digits]

theorem digits_led (n : Nat) : (Nat.digits b n).reverse.head? ≠ some 0 := by
  rw [List.head?_reverse]
  intro last
  obtain ⟨nonempty, zero⟩ := List.mem_getLast?_eq_getLast last
  exact Nat.getLast_digit_ne_zero b (Nat.digits_ne_nil_iff_ne_zero.mp nonempty) zero.symm

theorem digits_value (base : 1 < b) (small : ∀ digit ∈ rest, digit < b) (led : rest.head? ≠ some 0) :
    (Nat.digits b (value b rest)).reverse = rest := by
  have spelled : Nat.digits b (Nat.ofDigits b rest.reverse) = rest.reverse := by
    apply Nat.digits_ofDigits b base
    · intro digit member
      exact small digit (List.mem_reverse.mp member)
    · intro nonempty zero
      apply led
      rw [← List.getLast?_reverse, List.getLast?_eq_some_getLast nonempty, zero]
  rw [value_eq_ofDigits, spelled, List.reverse_reverse]

theorem recode_recode (base : 1 < b) (small : ∀ digit ∈ digits, digit < b) : recode c b (recode b c digits) = digits := by
  obtain ⟨zeros, rest, rfl, led⟩ := leading_zeros digits
  have restSmall : ∀ digit ∈ rest, digit < b := fun digit member => small digit (List.mem_append_right _ member)
  rw [recode_zeros zeros led, recode_zeros zeros (digits_led _), value_digits, digits_value base restSmall led]

theorem recode_lt (base : 1 < c) : ∀ digit ∈ recode b c digits, digit < c := by
  intro digit member
  rcases List.mem_append.mp member with zero | spelled
  · rw [List.eq_of_mem_replicate zero]
    exact Nat.zero_lt_of_lt base
  · exact Nat.digits_lt_base base (List.mem_reverse.mp spelled)

theorem value_lt (base : 1 < c) (small : ∀ digit ∈ rest, digit < c) : value c rest < c ^ rest.length := by
  rw [value_eq_ofDigits, ← List.length_reverse]
  apply Nat.ofDigits_lt_base_pow_length base
  intro digit member
  exact small digit (List.mem_reverse.mp member)

section Lengths
variable (base : 1 < b) (narrower : b ≤ c)
include base narrower

/-- Fewer digits never say as much in a smaller base. -/
theorem length_le_recode (small : ∀ digit ∈ digits, digit < c) : digits.length ≤ (recode c b digits).length := by
  obtain ⟨zeros, rest, rfl, led⟩ := leading_zeros digits
  have restSmall : ∀ digit ∈ rest, digit < c := fun digit member => small digit (List.mem_append_right _ member)
  have wide : 1 < c := Nat.lt_of_lt_of_le base narrower
  rw [recode_zeros zeros led, List.length_append, List.length_append, List.length_reverse]
  apply Nat.add_le_add_left
  have spelled : (Nat.digits c (value c rest)).length = rest.length := by
    rw [← List.length_reverse, digits_value wide restSmall led]
  rw [← spelled, Nat.digits_length_le_iff wide]
  calc value c rest < b ^ (Nat.digits b (value c rest)).length := Nat.lt_base_pow_length_digits base
    _ ≤ c ^ (Nat.digits b (value c rest)).length := Nat.pow_le_pow_left narrower _

theorem recode_length_le {n m : Nat} (small : ∀ digit ∈ digits, digit < c) (short : digits.length ≤ n) (wider : n ≤ m)
    (fits : c ^ n ≤ b ^ m) : (recode c b digits).length ≤ m := by
  obtain ⟨zeros, rest, rfl, led⟩ := leading_zeros digits
  have restSmall : ∀ digit ∈ rest, digit < c := fun digit member => small digit (List.mem_append_right _ member)
  have wide : 1 < c := Nat.lt_of_lt_of_le base narrower
  rw [List.length_append, List.length_replicate] at short
  rw [recode_zeros zeros led, List.length_append, List.length_replicate, List.length_reverse]
  -- a leading zero takes no more room in the smaller base, so the bound may be divided by it
  have shared : c ^ (n - zeros) * b ^ zeros ≤ b ^ (m - zeros) * b ^ zeros :=
    calc c ^ (n - zeros) * b ^ zeros ≤ c ^ (n - zeros) * c ^ zeros :=
          Nat.mul_le_mul_left _ (Nat.pow_le_pow_left narrower _)
      _ = c ^ n := by rw [← Nat.pow_add, Nat.sub_add_cancel (by omega)]
      _ ≤ b ^ m := fits
      _ = b ^ (m - zeros) * b ^ zeros := by rw [← Nat.pow_add, Nat.sub_add_cancel (by omega)]
  have below : value c rest < b ^ (m - zeros) :=
    calc value c rest < c ^ rest.length := value_lt wide restSmall
      _ ≤ c ^ (n - zeros) := Nat.pow_le_pow_right (Nat.zero_lt_of_lt wide) (by omega)
      _ ≤ b ^ (m - zeros) := Nat.le_of_mul_le_mul_right shared (Nat.pow_pos (Nat.zero_lt_of_lt base))
  have spelled : (Nat.digits b (value c rest)).length ≤ m - zeros := (Nat.digits_length_le_iff base _).mpr below
  omega

end Lengths

section Alphabet
variable {α : Type} [BEq α] [LawfulBEq α] [Inhabited α] {alphabet : List α}

/-- How an alphabet spells a digit. -/
def letter (alphabet : List α) (digit : Nat) : α := alphabet.getD digit default

theorem idxOf?_letter (distinct : alphabet.Nodup) {c : α} {digit : Nat} :
    alphabet.idxOf? c = some digit ↔ digit < alphabet.length ∧ letter alphabet digit = c := by
  have spelled (inside : digit < alphabet.length) : letter alphabet digit = alphabet[digit] := by
    rw [letter, List.getD_eq_getElem?_getD, List.getElem?_eq_getElem inside, Option.getD_some]
  rw [List.idxOf?_eq_some_iff]
  constructor
  · rintro ⟨inside, same, _⟩
    exact ⟨inside, (spelled inside).trans same⟩
  · rintro ⟨inside, same⟩
    refine ⟨inside, (spelled inside).symm.trans same, fun earlier before found => ?_⟩
    have repeated : alphabet[earlier] = alphabet[digit] := found.trans (same.symm.trans (spelled inside))
    exact Nat.ne_of_lt before ((List.Nodup.getElem_inj_iff distinct).mp repeated)

/-- Reading letters one by one undoes spelling digits one by one. -/
theorem mapM_letters (distinct : alphabet.Nodup) {letters : List α} {digits : List Nat} :
    letters.mapM (alphabet.idxOf? ·) = some digits ↔
      (∀ digit ∈ digits, digit < alphabet.length) ∧ letters = digits.map (letter alphabet) := by
  induction letters generalizing digits with
  | nil =>
    cases digits <;> simp
  | cons c rest ih =>
    have first : (c :: rest).mapM (alphabet.idxOf? ·) = some digits ↔ ∃ digit, alphabet.idxOf? c = some digit ∧
        ∃ more, rest.mapM (alphabet.idxOf? ·) = some more ∧ digit :: more = digits := by
      simp only [List.mapM_cons, bind, Option.bind_eq_some_iff, pure, Option.some.injEq]
    rw [first]
    constructor
    · rintro ⟨digit, spelled, more, later, rfl⟩
      obtain ⟨small, same⟩ := (idxOf?_letter distinct).mp spelled
      obtain ⟨moreSmall, moreSame⟩ := ih.mp later
      exact ⟨List.forall_mem_cons.mpr ⟨small, moreSmall⟩, by rw [List.map_cons, same, ← moreSame]⟩
    · rintro ⟨small, same⟩
      cases digits with
      | nil => cases same
      | cons digit more =>
        obtain ⟨digitSmall, moreSmall⟩ := List.forall_mem_cons.mp small
        obtain ⟨head, tail⟩ := List.cons.inj same
        exact ⟨digit, (idxOf?_letter distinct).mpr ⟨digitSmall, head.symm⟩, more, ih.mpr ⟨moreSmall, tail⟩, rfl⟩

end Alphabet
end Systems.Radix
