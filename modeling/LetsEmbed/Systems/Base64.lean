import LetsEmbed.Systems.Radix

/-! Base64 in the alphabet that is safe in URLs, without padding. Three bytes are
four letters; one or two bytes at the end are two or three, whose last bits must be
zero for them to be read. -/

namespace Systems.Base64
open Radix

def alphabet : List Char := "ABCDEFGHIJKLMNOPQRSTUVWXYZabcdefghijklmnopqrstuvwxyz0123456789-_".toList

def sextets : List UInt8 → List Nat
  | a :: b :: c :: rest =>
    let n := a.toNat * 65536 + b.toNat * 256 + c.toNat
    n / 262144 :: n / 4096 % 64 :: n / 64 % 64 :: n % 64 :: sextets rest
  | [a, b] => let n := (a.toNat * 256 + b.toNat) * 4; [n / 4096, n / 64 % 64, n % 64]
  | [a] => let n := a.toNat * 16; [n / 64, n % 64]
  | [] => []

def octets : List Nat → Option (List UInt8)
  | a :: b :: c :: d :: rest =>
    let n := a * 262144 + b * 4096 + c * 64 + d
    (octets rest).map fun more => .ofNat (n / 65536) :: .ofNat (n / 256 % 256) :: .ofNat (n % 256) :: more
  | [a, b, c] =>
    let n := a * 4096 + b * 64 + c
    if n % 4 = 0 then some [.ofNat (n / 1024), .ofNat (n / 4 % 256)] else none
  | [a, b] => let n := a * 64 + b; if n % 16 = 0 then some [.ofNat (n / 16)] else none
  | [_] => none
  | [] => some []

def encode (bytes : List UInt8) : String := String.ofList ((sextets bytes).map (letter alphabet))

def decode (s : String) : Option (List UInt8) := (s.toList.mapM (alphabet.idxOf? ·)).bind octets

theorem sextets_lt (bytes : List UInt8) : ∀ sextet ∈ sextets bytes, sextet < 64 := by
  fun_induction sextets bytes with
  | case1 a b c rest n ih =>
    have small := a.toNat_lt
    have small' := b.toNat_lt
    have small'' := c.toNat_lt
    simp only [List.forall_mem_cons]
    exact ⟨by omega, by omega, by omega, by omega, ih⟩
  | case2 a b n =>
    have small := a.toNat_lt
    have small' := b.toNat_lt
    simp only [List.forall_mem_cons]
    exact ⟨by omega, by omega, by omega, by simp⟩
  | case3 a n =>
    have small := a.toNat_lt
    simp only [List.forall_mem_cons]
    exact ⟨by omega, by omega, by simp⟩
  | case4 => simp

theorem octets_sextets (bytes : List UInt8) : octets (sextets bytes) = some bytes := by
  fun_induction sextets bytes with
  | case1 a b c rest n ih =>
    have small := b.toNat_lt
    have small' := c.toNat_lt
    have joined : n / 262144 * 262144 + n / 4096 % 64 * 4096 + n / 64 % 64 * 64 + n % 64 = n := by omega
    have first : n / 65536 = a.toNat := by omega
    have second : n / 256 % 256 = b.toNat := by omega
    have third : n % 256 = c.toNat := by omega
    simp only [octets, ih, joined, first, second, third, UInt8.ofNat_toNat, Option.map_some]
  | case2 a b n =>
    have small := b.toNat_lt
    have joined : n / 4096 * 4096 + n / 64 % 64 * 64 + n % 64 = n := by omega
    have closed : n % 4 = 0 := by omega
    have first : n / 1024 = a.toNat := by omega
    have second : n / 4 % 256 = b.toNat := by omega
    simp only [octets, joined, closed, first, second, UInt8.ofNat_toNat, if_true]
  | case3 a n =>
    have joined : n / 64 * 64 + n % 64 = n := by omega
    have closed : n % 16 = 0 := by omega
    have first : n / 16 = a.toNat := by omega
    simp only [octets, joined, closed, first, UInt8.ofNat_toNat, if_true]
  | case4 => rfl

theorem decode_encode (bytes : List UInt8) : decode (encode bytes) = some bytes := by
  have distinct : alphabet.Nodup := by decide
  rw [decode, encode, String.toList_ofList, (mapM_letters distinct).mpr ⟨sextets_lt bytes, rfl⟩]
  exact octets_sextets bytes

theorem mem_alphabet_of_encode (bytes : List UInt8) : ∀ c ∈ (encode bytes).toList, c ∈ alphabet := by
  intro c member
  rw [encode, String.toList_ofList] at member
  obtain ⟨sextet, present, rfl⟩ := List.mem_map.mp member
  have inside : sextet < alphabet.length := sextets_lt bytes sextet present
  rw [letter, List.getD_eq_getElem?_getD, List.getElem?_eq_getElem inside]
  exact List.getElem_mem inside

end Systems.Base64
