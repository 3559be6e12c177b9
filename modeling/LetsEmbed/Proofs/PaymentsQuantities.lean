import LetsEmbed.Payments
import LetsEmbed.Proofs.TextDigits

/-! Quantities as nodes write them. The library's parser takes a plus sign as well,
which no quantity has. -/

namespace LetsEmbed.Payments
open Systems Text

def quantity (digits : List Char) : Nat := Radix.value 16 (digits.map (digitOf 16))

/-- A prefix, then at least one hexadecimal digit. -/
def Spells (s : String) (digits : List Char) : Prop := s.toList = '0' :: 'x' :: digits ∧ digits ≠ [] ∧ Digits 16 digits

/-- What is read of a text are the quantities of this width that it spells. -/
def Exact (bits : Nat) (read : Option Nat) (s : String) : Prop :=
  ∀ n, read = some n ↔ ∃ digits, Spells s digits ∧ quantity digits = n ∧ n < 2 ^ bits

def Signed (s : String) : Prop :=
  ∃ digits, s.toList = '0' :: 'x' :: '+' :: digits ∧ digits ≠ [] ∧ Digits 16 digits ∧ quantity digits < 2 ^ 128

variable {s : String} {n : Nat}

theorem hexToU128_eq_some : hexToU128 s = some n ↔ ∃ chars digits, s.toList = '0' :: 'x' :: chars ∧
    digits = (if chars.head? = some '+' then chars.tail else chars) ∧ digits ≠ [] ∧ Digits 16 digits ∧
      quantity digits = n ∧ n < 2 ^ 128 := by
  rw [hexToU128, Option.bind_eq_some_iff]
  constructor
  · intro ⟨rest, begins, read⟩
    rw [← String.ofList_toList (s := rest)] at read
    obtain ⟨digits, found⟩ := fromStrRadix_eq_some.mp read
    exact ⟨rest.toList, digits, stripPrefix_eq_some.mp begins, found⟩
  · intro ⟨chars, digits, whole, found⟩
    have begins : s.toList = "0x".toList ++ (String.ofList chars).toList := by
      rw [String.toList_ofList, String.toList_ofList]
      exact whole
    exact ⟨String.ofList chars, stripPrefix_eq_some.mpr begins, fromStrRadix_eq_some.mpr ⟨digits, found⟩⟩

theorem unsigned_head {digits : List Char} (spelled : Digits 16 digits) : digits.head? ≠ some '+' := by
  cases digits with
  | nil => simp
  | cons c rest =>
    intro plus
    cases plus
    cases spelled '+' List.mem_cons_self

/-- A text is read as what it spells, or as what it spells behind a plus sign. -/
theorem hexToU128_cases : hexToU128 s = some n ↔ (∃ digits, Spells s digits ∧ quantity digits = n ∧ n < 2 ^ 128) ∨
    ∃ digits, s.toList = '0' :: 'x' :: '+' :: digits ∧ digits ≠ [] ∧ Digits 16 digits ∧ quantity digits = n ∧ n < 2 ^ 128 := by
  rw [hexToU128_eq_some]
  constructor
  · intro ⟨chars, digits, whole, rest, filled, spelled, value⟩
    split at rest
    next plus =>
      cases chars with
      | nil => cases plus
      | cons c chars =>
        cases plus
        exact .inr ⟨digits, rest ▸ whole, filled, spelled, value⟩
    next => exact .inl ⟨digits, ⟨rest ▸ whole, filled, spelled⟩, value⟩
  · intro read
    cases read with
    | inl plain =>
      obtain ⟨digits, ⟨whole, filled, spelled⟩, value⟩ := plain
      exact ⟨digits, digits, whole, (if_neg (unsigned_head spelled)).symm, filled, spelled, value⟩
    | inr plus =>
      obtain ⟨digits, whole, found⟩ := plus
      exact ⟨'+' :: digits, digits, whole, rfl, found⟩

theorem hexToU64_eq_some : hexToU64 s = some n ↔ hexToU128 s = some n ∧ n < 2 ^ 64 := by
  rw [hexToU64, Option.filter_eq_some_iff, decide_eq_true_iff]

theorem not_spells_of_signed {digits other : List Char} (whole : s.toList = '0' :: 'x' :: '+' :: digits) : ¬Spells s other := by
  intro ⟨same, _, spelled⟩
  have plus : other.head? = some '+' := by
    rw [whole] at same
    cases same
    rfl
  exact unsigned_head spelled plus

/-- Quantities are read exactly, but for the texts with a plus sign behind the prefix
that are read as if it were not there. -/
theorem quantities_exact_iff (s : String) : Exact 128 (hexToU128 s) s ∧ Exact 64 (hexToU64 s) s ↔ ¬Signed s := by
  constructor
  · intro ⟨exact128, _⟩ ⟨digits, whole, filled, spelled, fits⟩
    have read : hexToU128 s = some (quantity digits) := hexToU128_cases.mpr (.inr ⟨digits, whole, filled, spelled, rfl, fits⟩)
    obtain ⟨_, spells, _⟩ := (exact128 _).mp read
    exact not_spells_of_signed whole spells
  · intro unsigned
    have exact128 : Exact 128 (hexToU128 s) s := by
      intro n
      rw [hexToU128_cases]
      apply or_iff_left
      intro ⟨digits, whole, filled, spelled, value, fits⟩
      exact unsigned ⟨digits, whole, filled, spelled, value ▸ fits⟩
    refine ⟨exact128, ?_⟩
    intro n
    rw [hexToU64_eq_some, exact128]
    constructor
    · intro ⟨⟨digits, spells, value, _⟩, fits⟩
      exact ⟨digits, spells, value, fits⟩
    · intro ⟨digits, spells, value, fits⟩
      exact ⟨⟨digits, spells, value, fits.trans (by decide)⟩, fits⟩

theorem signed_quantity : hexToU128 "0x+1f" = some 31 ∧ ¬Exact 128 (hexToU128 "0x+1f") "0x+1f" := by
  have read : hexToU128 "0x+1f" = some 31 := by decide
  refine ⟨read, fun exact128 => ?_⟩
  obtain ⟨digits, spells, _⟩ := (exact128 31).mp read
  exact @not_spells_of_signed _ ['1', 'f'] _ (by decide) spells

end LetsEmbed.Payments
