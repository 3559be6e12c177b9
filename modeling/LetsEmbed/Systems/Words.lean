import Mathlib.Logic.Function.Basic

/-! Steps that scramble words of a fixed width and can be taken back. -/

namespace Systems.Words

variable {w k : Nat} {c inverse : BitVec w}

/-- A word that stays the same when shifted has no bits. -/
theorem eq_zero_of_shifted {x : BitVec w} (positive : 0 < k) (same : x = x >>> k) : x = 0#w := by
  have shifted : x.toNat / 2 ^ k = x.toNat := by
    rw [← Nat.shiftRight_eq_div_pow, ← BitVec.toNat_ushiftRight, ← same]
  have wide : 1 < 2 ^ k := Nat.one_lt_two_pow (Nat.ne_of_gt positive)
  apply BitVec.eq_of_toNat_eq
  rw [BitVec.toNat_ofNat, Nat.zero_mod]
  cases x.toNat.eq_zero_or_pos with
  | inl zero => exact zero
  | inr some => exact absurd shifted (Nat.ne_of_lt (Nat.div_lt_self some wide))

/-- The upper bits are left as they are, and give away the ones below. -/
theorem xorShift_injective (positive : 0 < k) : Function.Injective fun x : BitVec w => x ^^^ (x >>> k) := by
  intro x y same
  dsimp only at same
  have together : (x ^^^ y) ^^^ ((x ^^^ y) >>> k) = 0#w := by
    rw [BitVec.ushiftRight_xor_distrib]
    calc (x ^^^ y) ^^^ ((x >>> k) ^^^ (y >>> k)) = (x ^^^ (x >>> k)) ^^^ (y ^^^ (y >>> k)) := by ac_rfl
      _ = 0#w := by rw [same, BitVec.xor_self]
  exact BitVec.xor_eq_zero_iff.mp (eq_zero_of_shifted positive (BitVec.xor_eq_zero_iff.mp together))

theorem mul_injective (undone : c * inverse = 1#w) : Function.Injective fun x : BitVec w => x * c := by
  intro x y same
  dsimp only at same
  rw [← BitVec.mul_one x, ← BitVec.mul_one y, ← undone, ← BitVec.mul_assoc, ← BitVec.mul_assoc, same]

end Systems.Words
