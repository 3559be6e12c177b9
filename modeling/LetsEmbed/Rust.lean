import Mathlib.Algebra.Order.Ring.Int

/-! The machine numbers of the source, as far as their width matters. Both
workers are deployed from the wasm-release profile, whose arithmetic wraps. -/

namespace LetsEmbed.Rust

/-- Two's-complement reduction of an exact result to `i64`. -/
def i64 (value : Int) : Int := value.bmod (2 ^ 64)

def i64Max : Int := 2 ^ 63 - 1

/-- The exact result is an `i64`, so the operation does not overflow. -/
def InI64 (value : Int) : Prop := -2 ^ 63 ≤ value ∧ value ≤ i64Max

instance (value : Int) : Decidable (InI64 value) := inferInstanceAs (Decidable (_ ∧ _))

@[simp] theorem i64_of_fits {value : Int} (fits : InI64 value) : i64 value = value := by
  obtain ⟨low, high⟩ := fits
  exact Int.bmod_eq_of_le low (by simp only [i64Max] at high; omega)

theorem i64_fits (value : Int) : InI64 (i64 value) := by
  have low := @Int.le_bmod value (2 ^ 64) (by decide)
  have high := @Int.bmod_lt value (2 ^ 64) (by decide)
  rw [InI64, i64, i64Max]
  omega

theorem i64_of_overflow {value : Int} (low : i64Max < value) (high : value ≤ 2 * i64Max) :
    i64 value = value - 2 ^ 64 := by
  unfold i64 i64Max at *
  rw [← Int.sub_bmod_right]
  exact Int.bmod_eq_of_le (by omega) (by omega)

/-- `i64::saturating_add`. -/
def satAdd (a b : Int) : Int := max (-2 ^ 63) (min (a + b) i64Max)

/-- `u64` subtraction, wrapping below zero. -/
def u64Sub (a b : Nat) : Nat := if b ≤ a then a - b else a + 2 ^ 64 - b

theorem u64Sub_of_le {a b : Nat} (le : b ≤ a) : u64Sub a b = a - b := if_pos le

/-- The value of `n as f64`: 53 bits are kept, and the nearer of two neighbours is taken,
the even one in a tie. -/
def asF64 (n : Int) : Int :=
  if n.natAbs ≤ 2 ^ 53 then n
  else
    let unit := 2 ^ (n.natAbs.log2 - 52)
    let low := n.natAbs / unit
    let beyond := 2 * (n.natAbs % unit)
    let nearest := if beyond < unit then low else if unit < beyond then low + 1 else low + low % 2
    n.sign * ((nearest * unit : Nat) : Int)

theorem asF64_of_small {n : Int} (small : n.natAbs ≤ 2 ^ 53) : asF64 n = n := if_pos small

-- the two neighbours of 2^53 + 1 are as near as each other
example : asF64 (2 ^ 53 + 1) = 2 ^ 53 ∧ asF64 (2 ^ 53 + 3) = 2 ^ 53 + 4 ∧ asF64 (-2 ^ 63 + 1) = -2 ^ 63 := by decide

end LetsEmbed.Rust
