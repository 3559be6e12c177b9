import LetsEmbed.SearchEngine
import Mathlib.Algebra.Order.BigOperators.Group.List

/-! Paging through random ids. Every index of the stream has its own draw, and a page
is a stretch of them without repeats. -/

namespace LetsEmbed.SearchEngine
open Rust Systems

/-- The pages of these sizes, one after the other. -/
def randomPages (seed min max : Int) : (offset : Int) → (limits : List Int) → List (List Int)
  | _, [] => []
  | offset, limit :: rest => randomIds seed min max limit offset :: randomPages seed min max (offset + limit) rest

variable {seed min max limit offset i : Int}

theorem indices_append {start mid stop : Int} (first : start ≤ mid) (second : mid ≤ stop) :
    indices start stop = indices start mid ++ indices mid stop := by
  have lengths : (stop - start).toNat = (mid - start).toNat + (stop - mid).toNat := by omega
  rw [indices, indices, indices, lengths, List.range_add, List.map_append, List.map_map]
  congr 1
  apply List.map_congr_left
  intro k _
  simp only [Function.comp_apply]
  omega

theorem satAdd_of_le (positive : 0 ≤ offset + limit) (fits : offset + limit ≤ i64Max) : satAdd offset limit = offset + limit := by
  rw [satAdd, min_eq_left fits]
  exact max_eq_right (by omega)

theorem toNat_ofInt {value : Int} (low : 0 ≤ value) (high : value ≤ i64Max) : (UInt64.ofInt value).toNat = value.toNat := by
  have kept : value % 2 ^ 64 = value := Int.emod_eq_of_lt low (by unfold i64Max at high; omega)
  rw [UInt64.ofInt, kept, UInt64.toNat_ofNat']
  exact Nat.mod_eq_of_lt (by unfold i64Max at high; omega)

/-- No operation of a draw overflows. -/
theorem randomId_eq (ordered : min ≤ max) (low : InI64 min) (high : InI64 max) (span : InI64 (max - min + 1)) :
    randomId seed min max i =
      min + ((mix64 (UInt64.ofInt seed ^^^ mix64 (UInt64.ofInt i))).toNat % (max - min + 1).toNat : Nat) := by
  have apart : InI64 (max - min) := ⟨by omega, by have := span.2; omega⟩
  generalize hash : mix64 (UInt64.ofInt seed ^^^ mix64 (UInt64.ofInt i)) = h
  have below : h.toNat % (max - min + 1).toNat < (max - min + 1).toNat := Nat.mod_lt _ (by omega)
  have rest : InI64 (h.toNat % (max - min + 1).toNat : Nat) := ⟨by omega, by have := span.2; omega⟩
  have id : InI64 (min + (h.toNat % (max - min + 1).toNat : Nat)) := ⟨by have := low.1; omega, by have := high.2; omega⟩
  rw [randomId, hash, i64_of_fits apart, i64_of_fits span, UInt64.toNat_mod, toNat_ofInt (by omega) span.2, i64_of_fits rest,
    i64_of_fits id]

theorem randomId_mem (ordered : min ≤ max) (low : InI64 min) (high : InI64 max) (span : InI64 (max - min + 1)) :
    min ≤ randomId seed min max i ∧ randomId seed min max i ≤ max := by
  rw [randomId_eq ordered low high span]
  have below : (mix64 (UInt64.ofInt seed ^^^ mix64 (UInt64.ofInt i))).toNat % (max - min + 1).toNat < (max - min + 1).toNat :=
    Nat.mod_lt _ (by omega)
  omega

theorem randomIds_length (first : 0 ≤ offset) (size : 0 ≤ limit) : (randomIds seed min max limit offset).length ≤ limit.toNat := by
  apply Distinct.length_fresh_le.trans
  rw [List.length_map, indices, List.length_map, List.length_range, satAdd]
  omega

theorem draws_append {start mid stop : Int} (first : start ≤ mid) (second : mid ≤ stop) :
    (indices start stop).map (randomId seed min max) =
      (indices start mid).map (randomId seed min max) ++ (indices mid stop).map (randomId seed min max) := by
  rw [indices_append first second, List.map_append]

/-- A page of two sizes together is the first page and what is new in the second. -/
theorem randomIds_append {first second : Int} (start : 0 ≤ offset) (one : 0 ≤ first) (two : 0 ≤ second)
    (fits : offset + (first + second) ≤ i64Max) :
    randomIds seed min max (first + second) offset = randomIds seed min max first offset ++
      (randomIds seed min max second (offset + first)).filter (· ∉ randomIds seed min max first offset) := by
  have whole := @satAdd_of_le (first + second) offset (by omega) fits
  have part := @satAdd_of_le first offset (by omega) (by omega)
  have rest := @satAdd_of_le second (offset + first) (by omega) (by omega)
  rw [randomIds, randomIds, randomIds, whole, part, rest, Int.add_assoc,
    draws_append (Int.le_add_of_nonneg_right one) (by omega), Distinct.fresh_append, List.nil_append]
  congr 1
  rw [← Distinct.fresh_eq_filter]
  apply Distinct.fresh_congr
  simp [Distinct.mem_fresh]

theorem randomPages_flatten (limits : List Int) (start : 0 ≤ offset) (sizes : ∀ limit ∈ limits, 0 ≤ limit)
    (fits : offset + limits.sum ≤ i64Max) :
    Distinct.fresh [] (randomPages seed min max offset limits).flatten = randomIds seed min max limits.sum offset := by
  induction limits generalizing offset with
  | nil =>
    rw [List.sum_nil, Int.add_zero] at fits
    have same := @satAdd_of_le 0 offset (by omega) (by omega)
    simp [randomPages, randomIds, Distinct.fresh, indices, same]
  | cons limit rest ih =>
    obtain ⟨size, others⟩ := List.forall_mem_cons.mp sizes
    have total : 0 ≤ rest.sum := List.sum_nonneg others
    have page : Distinct.fresh [] (randomIds seed min max limit offset) = randomIds seed min max limit offset :=
      Distinct.fresh_of_nodup Distinct.nodup_fresh
    rw [List.sum_cons] at fits ⊢
    rw [randomPages, List.flatten_cons, Distinct.fresh_append, page, List.nil_append, Distinct.fresh_eq_filter,
      ih (by omega) others (by omega), ← randomIds_append start size total fits]

/-- A page is the draws from its offset on, each at its first place. -/
theorem randomIds_draws (start : 0 ≤ offset) (size : 0 ≤ limit) (fits : offset + limit ≤ i64Max) :
    randomIds seed min max limit offset =
      ((List.range limit.toNat).filter fun k : Nat => ∀ j : Nat, j < k → randomId seed min max (offset + j) ≠ randomId seed min max (offset + k)).map
        fun k : Nat => randomId seed min max (offset + k) := by
  have length : (offset + limit - offset).toNat = limit.toNat := by omega
  rw [randomIds, satAdd_of_le (by omega) fits, indices, length, List.map_map]
  exact Distinct.fresh_range (fun k : Nat => randomId seed min max (offset + k)) limit.toNat

/-- Ids are drawn in range without overflow or repeats, a page is those drawn from its
offset on, and pages of any sizes make one stream of them. -/
theorem randomIds_stream (seed min max limit offset : Int) (ordered : min ≤ max) (low : InI64 min) (high : InI64 max)
    (span : InI64 (max - min + 1)) (size : 0 ≤ limit) (start : 0 ≤ offset) :
    (randomIds seed min max limit offset).length ≤ limit.toNat ∧
      (∀ id ∈ randomIds seed min max limit offset, min ≤ id ∧ id ≤ max) ∧
      (∀ i, randomId seed min max i =
        min + ((mix64 (UInt64.ofInt seed ^^^ mix64 (UInt64.ofInt i))).toNat % (max - min + 1).toNat : Nat)) ∧
      (randomIds seed min max limit offset).Nodup ∧
      (offset + limit ≤ i64Max → randomIds seed min max limit offset = ((List.range limit.toNat).filter fun k : Nat =>
        ∀ j : Nat, j < k → randomId seed min max (offset + j) ≠ randomId seed min max (offset + k)).map
          fun k : Nat => randomId seed min max (offset + k)) ∧
      (∀ first second, 0 ≤ first → 0 ≤ second → limit = first + second → offset + limit ≤ i64Max →
        randomIds seed min max limit offset = randomIds seed min max first offset ++
          (randomIds seed min max second (offset + first)).filter (· ∉ randomIds seed min max first offset)) ∧
      ∀ limits : List Int, (∀ size ∈ limits, 0 ≤ size) → limits.sum = limit → offset + limit ≤ i64Max →
        Distinct.gathered (randomPages seed min max offset limits) = randomIds seed min max limit offset := by
  refine ⟨randomIds_length start size, ?_, fun _ => randomId_eq ordered low high span, Distinct.nodup_fresh,
    randomIds_draws start size, ?_, ?_⟩
  · intro id member
    obtain ⟨i, _, rfl⟩ := List.mem_map.mp (Distinct.mem_fresh.mp member).1
    exact randomId_mem ordered low high span
  · intro first second one two split fits
    subst split
    exact randomIds_append start one two fits
  · intro limits sizes total fits
    subst total
    rw [Distinct.gathered_eq, randomPages_flatten limits start sizes fits]

theorem randomIds_stream_edge :
    (randomIds 42 (-3) (i64Max - 4) 3 5).Nodup ∧
      Distinct.gathered (randomPages 42 (-3) (i64Max - 4) 5 [1, 2]) = randomIds 42 (-3) (i64Max - 4) 3 5 := by
  obtain ⟨_, _, _, nodup, _, _, pages⟩ :=
    randomIds_stream 42 (-3) (i64Max - 4) 3 5 (by decide) (by decide) (by decide) (by decide) (by decide) (by decide)
  exact ⟨nodup, pages [1, 2] (by decide) (by decide) (by decide)⟩

end LetsEmbed.SearchEngine
