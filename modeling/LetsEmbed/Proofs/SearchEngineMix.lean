import LetsEmbed.SearchEngine
import LetsEmbed.Systems.Words
import Mathlib.Data.Finite.Defs
import Mathlib.Data.Fintype.EquivFin

/-! The hash of the random stream loses nothing: each of its three steps can be taken
back, so that two positions only ever meet in the reduction to ids. -/

namespace LetsEmbed.SearchEngine
open Rust Systems

theorem xorShift_injective {k : UInt64} (positive : 0 < (k.toBitVec % 64).toNat) :
    Function.Injective fun z : UInt64 => z ^^^ (z >>> k) := by
  intro z z' same
  have bits := congrArg UInt64.toBitVec same
  simp only [UInt64.toBitVec_xor, UInt64.toBitVec_shiftRight, BitVec.ushiftRight_eq'] at bits
  exact UInt64.toBitVec_inj.mp (Words.xorShift_injective positive bits)

theorem mul_injective {c inverse : UInt64} (undone : c * inverse = 1) : Function.Injective fun z : UInt64 => z * c := by
  intro z z' same
  have bits := congrArg UInt64.toBitVec same
  simp only [UInt64.toBitVec_mul] at bits
  exact UInt64.toBitVec_inj.mp (Words.mul_injective (congrArg UInt64.toBitVec undone) bits)

theorem mix64_injective : Function.Injective mix64 := by
  have first := @mul_injective 0xbf58476d1ce4e5b9 0x96de1b173f119089 (by decide)
  have second := @mul_injective 0x94d049bb133111eb 0x319642b2d24d8ec3 (by decide)
  have shift := @xorShift_injective 30 (by decide)
  have shift' := @xorShift_injective 27 (by decide)
  have shift'' := @xorShift_injective 31 (by decide)
  exact shift''.comp (second.comp (shift'.comp (first.comp shift)))

theorem xor_injective (seed : UInt64) : Function.Injective fun z => seed ^^^ z := by
  intro z z' same
  exact (UInt64.xor_right_inj seed).mp same

/-- Positions that a 64-bit integer counts are told apart as words. -/
theorem ofInt_injOn : Set.InjOn UInt64.ofInt {i | InI64 i} := by
  intro i fits j fits' same
  have words := congrArg UInt64.toNat same
  have word (n : Int) : (UInt64.ofInt n).toNat = (n % 2 ^ 64).toNat := by
    rw [UInt64.ofInt, UInt64.toNat_ofNat']
    exact Nat.mod_eq_of_lt (by omega)
  have low := fits.1
  have low' := fits'.1
  have high := fits.2
  have high' := fits'.2
  rw [word, word] at words
  rw [i64Max] at high high'
  omega

theorem mix64_bijective :
    Function.Bijective mix64 ∧ (∀ seed, Function.Injective fun i => mix64 (seed ^^^ mix64 i)) ∧
      ∀ seed i j, InI64 i → InI64 j → i ≠ j →
        mix64 (UInt64.ofInt seed ^^^ mix64 (UInt64.ofInt i)) ≠ mix64 (UInt64.ofInt seed ^^^ mix64 (UInt64.ofInt j)) := by
  have stream (seed : UInt64) : Function.Injective fun i => mix64 (seed ^^^ mix64 i) :=
    mix64_injective.comp ((xor_injective seed).comp mix64_injective)
  have finite : Finite UInt64 := Finite.of_injective UInt64.toFin fun _ _ => UInt64.toFin_inj.mp
  refine ⟨Finite.injective_iff_bijective.mp mix64_injective, stream, ?_⟩
  intro seed i j fits fits' apart same
  exact apart (ofInt_injOn fits fits' (stream _ same))

end LetsEmbed.SearchEngine
