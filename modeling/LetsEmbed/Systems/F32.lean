import Mathlib.Algebra.Order.Ring.Int

/-! Single-precision floats by their bits, as far as they are compared. The operators
compare what two floats say, which NaN never takes part in; the total order tells all
bit patterns apart, also a negative zero from the other. -/

namespace Systems

structure F32 where
  bits : BitVec 32
  deriving DecidableEq, Inhabited

namespace F32

/-- Without their signs, floats are in the order of their bits. -/
def magnitude (x : F32) : Nat := x.bits.toNat % 2 ^ 31

def negative (x : F32) : Bool := decide (2 ^ 31 ≤ x.bits.toNat)

def isNan (x : F32) : Bool := decide (0x7f800000 < x.magnitude)

def value (x : F32) : Int := if x.negative then -x.magnitude else x.magnitude

def ge (a b : F32) : Bool := !a.isNan && !b.isNan && decide (b.value ≤ a.value)

def gt (a b : F32) : Bool := !a.isNan && !b.isNan && decide (b.value < a.value)

/-- The bits as a signed integer, all but the sign flipped below zero. -/
def totalKey (x : F32) : Int := if x.negative then -x.magnitude - 1 else x.magnitude

theorem totalKey_injective : Function.Injective totalKey := by
  intro ⟨a⟩ ⟨b⟩ same
  have aFits := a.isLt
  have bFits := b.isLt
  simp only [totalKey, negative, magnitude, decide_eq_true_eq] at same
  congr 1
  apply BitVec.eq_of_toNat_eq
  split at same <;> split at same <;> omega

/-- `total_cmp`. -/
instance : LinearOrder F32 := LinearOrder.lift' totalKey totalKey_injective

variable {a b c : F32}

theorem le_iff : a ≤ b ↔ a.totalKey ≤ b.totalKey := Iff.rfl

/-- The total order never contradicts what floats say. -/
theorem value_le (ordered : a ≤ b) : a.value ≤ b.value := by
  rw [le_iff, totalKey, totalKey] at ordered
  rw [value, value]
  split at ordered
  next aNegative =>
    split at ordered
    next bNegative =>
      rw [if_pos aNegative, if_pos bNegative]
      omega
    next bPositive =>
      rw [if_pos aNegative, if_neg bPositive]
      omega
  next aPositive =>
    split at ordered
    next bNegative => omega
    next bPositive =>
      rw [if_neg aPositive, if_neg bPositive]
      exact ordered

theorem ge_iff : a.ge b = true ↔ a.isNan = false ∧ b.isNan = false ∧ b.value ≤ a.value := by
  rw [ge, Bool.and_eq_true, Bool.and_eq_true, Bool.not_eq_true', Bool.not_eq_true', decide_eq_true_eq, and_assoc]

theorem gt_iff (aNumber : a.isNan = false) (bNumber : b.isNan = false) : a.gt b = true ↔ b.value < a.value := by
  rw [gt, aNumber, bNumber]
  simp

end F32
end Systems
