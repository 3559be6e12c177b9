import LetsEmbed.Rates
import Mathlib.Tactic.NormNum

/-! What an amount is worth in points. Both roundings go down, so they are one, and
whatever leaves `u128` on the way is more than `i64` holds. -/

namespace LetsEmbed.Rates
open Config Rust

/-- A stablecoin is at one dollar. -/
def priceOf (price8dec : Option Nat) : Nat := price8dec.getD 100_000_000

/-- In exact arithmetic, rounded down once. -/
def uncapped (amount decimals : Nat) (price8dec : Option Nat) : Nat := amount * priceOf price8dec / 10 ^ (decimals + 4)

variable {amount more decimals : Nat} {price8dec other : Option Nat}

/-- Points in one rounding, unless the first product leaves `u128`. -/
theorem pointsFor_eq : pointsFor amount decimals price8dec =
    if amount * priceOf price8dec < 2 ^ 128 then min (uncapped amount decimals price8dec : Int) i64Max else i64Max := by
  have rate : pointsPerUsd.toNat = 10 ^ 4 := rfl
  have dollar : 100_000_000 = 10 ^ 4 * 10 ^ 4 := by norm_num
  generalize scaled : amount * priceOf price8dec = product
  have floors : product / 10 ^ decimals * 10 ^ 4 / 100_000_000 = product / 10 ^ (decimals + 4) := by
    rw [dollar, Nat.mul_div_mul_right _ _ (by norm_num), Nat.div_div_eq_div_mul, ← Nat.pow_add]
  rw [uncapped, scaled]
  unfold priceOf at scaled
  simp only [pointsFor, scaled, rate, floors]
  by_cases inside : product < 2 ^ 128
  · rw [if_pos inside, if_pos inside]
    split
    · rfl
    next large =>
      -- what the second product stands for is out of range as well
      have worth : 2 ^ 128 / 100_000_000 ≤ product / 10 ^ (decimals + 4) := by
        rw [← floors]
        exact Nat.div_le_div_right (Nat.not_lt.mp large)
      refine (min_eq_right ?_).symm
      unfold i64Max
      omega
  · rw [if_neg inside, if_neg inside]

theorem pointsFor_fits : 0 ≤ pointsFor amount decimals price8dec ∧ pointsFor amount decimals price8dec ≤ i64Max := by
  have top : 0 ≤ i64Max := by decide
  rw [pointsFor_eq]
  split
  · exact ⟨le_min (Int.natCast_nonneg _) top, min_le_right _ _⟩
  · exact ⟨top, Int.le_refl _⟩

theorem pointsFor_mono (amounts : amount ≤ more) (prices : priceOf price8dec ≤ priceOf other) :
    pointsFor amount decimals price8dec ≤ pointsFor more decimals other := by
  have products : amount * priceOf price8dec ≤ more * priceOf other := Nat.mul_le_mul amounts prices
  by_cases inside : more * priceOf other < 2 ^ 128
  · have floors : uncapped amount decimals price8dec ≤ uncapped more decimals other := Nat.div_le_div_right products
    rw [pointsFor_eq, pointsFor_eq, if_pos inside, if_pos (Nat.lt_of_le_of_lt products inside)]
    exact min_le_min_right _ (Int.ofNat_le.mpr floors)
  · rw [@pointsFor_eq more, if_neg inside]
    exact pointsFor_fits.2

theorem pointsFor_exact (inside : amount * priceOf price8dec < 2 ^ 128) : pointsFor amount decimals price8dec =
    min (uncapped amount decimals price8dec : Int) i64Max := by
  rw [pointsFor_eq, if_pos inside]

/-- Points of the parts of a deposit never add up to more than it earns as a whole. -/
theorem pointsFor_split (inside : (amount + more) * priceOf price8dec < 2 ^ 128)
    (total : (uncapped (amount + more) decimals price8dec : Int) ≤ i64Max) :
    pointsFor amount decimals price8dec + pointsFor more decimals price8dec ≤
      pointsFor (amount + more) decimals price8dec := by
  have parts : (amount + more) * priceOf price8dec = amount * priceOf price8dec + more * priceOf price8dec := Nat.add_mul ..
  have floors : uncapped amount decimals price8dec + uncapped more decimals price8dec ≤
      uncapped (amount + more) decimals price8dec := by
    rw [uncapped, uncapped, uncapped, parts]
    exact Nat.div_add_div_le_add_div ..
  rw [pointsFor_exact inside, min_eq_left total, pointsFor_exact (by omega), pointsFor_exact (by omega)]
  omega

/-- Amounts and prices may be any, so no `u128` is left out. -/
theorem pointsFor_sound (amount decimals : Nat) (price8dec : Option Nat) (tokens : decimals ≤ 30) :
    10 ^ decimals < 2 ^ 128 ∧ 0 ≤ pointsFor amount decimals price8dec ∧ pointsFor amount decimals price8dec ≤ i64Max ∧
      (∀ more other, amount ≤ more → priceOf price8dec ≤ priceOf other →
        pointsFor amount decimals price8dec ≤ pointsFor more decimals other) ∧
      (amount * priceOf price8dec < 2 ^ 128 → pointsFor amount decimals price8dec =
        min (uncapped amount decimals price8dec : Int) i64Max) ∧
      ∀ more, (amount + more) * priceOf price8dec < 2 ^ 128 →
        (uncapped (amount + more) decimals price8dec : Int) ≤ i64Max →
        pointsFor amount decimals price8dec + pointsFor more decimals price8dec ≤
          pointsFor (amount + more) decimals price8dec := by
  have power : 10 ^ decimals < 2 ^ 128 :=
    Nat.lt_of_le_of_lt (Nat.pow_le_pow_right (by norm_num) tokens) (by norm_num)
  exact ⟨power, pointsFor_fits.1, pointsFor_fits.2, fun _ _ => pointsFor_mono, pointsFor_exact, fun _ => pointsFor_split⟩

theorem pointsFor_sound_ether :
    pointsFor (10 ^ 18) 18 (some 300_000_000_000) = min (uncapped (10 ^ 18) 18 (some 300_000_000_000) : Int) i64Max :=
  (pointsFor_sound (10 ^ 18) 18 (some 300_000_000_000) (by decide)).2.2.2.2.1 (by decide +kernel)

end LetsEmbed.Rates
