import Mathlib.Data.List.Basic

/-! Percent encoding with a given set of characters left as they are. Two encoders
agree on exactly the texts on whose characters their sets agree. -/

namespace Systems.Percent

def hexDigit (n : Nat) : Char := if n < 10 then Char.ofNat (48 + n) else Char.ofNat (55 + n)

/-- Every byte of the character, with uppercase digits. -/
def escaped (c : Char) : List Char :=
  (String.utf8EncodeChar c).flatMap fun b => ['%', hexDigit (b.toNat / 16), hexDigit (b.toNat % 16)]

def encodeChar (safe : Char → Bool) (c : Char) : List Char := if safe c then [c] else escaped c

def encode (safe : Char → Bool) (text : List Char) : List Char := text.flatMap (encodeChar safe)

variable {safe other : Char → Bool} {text : List Char}

theorem escaped_cons (c : Char) : ∃ rest, escaped c = '%' :: rest := by
  cases bytes : String.utf8EncodeChar c with
  | nil =>
    have filled := String.length_utf8EncodeChar c
    rw [bytes] at filled
    exact absurd filled.symm (Nat.ne_of_gt c.utf8Size_pos)
  | cons b rest => exact ⟨_, by rw [escaped, bytes, List.flatMap_cons]; rfl⟩

theorem encode_cons (c : Char) : encode safe (c :: text) = encodeChar safe c ++ encode safe text := List.flatMap_cons

theorem encode_congr (same : ∀ c ∈ text, safe c = other c) : encode safe text = encode other text := by
  induction text with
  | nil => rfl
  | cons c text ih =>
    rw [encode_cons, encode_cons, encodeChar, encodeChar, same c List.mem_cons_self,
      ih fun d member => same d (List.mem_cons_of_mem _ member)]

/-- The percent sign gives away which of the two left the character as it was. -/
theorem escaped_ne {c : Char} {left right : List Char} (kept : safe c = true) (strict : safe '%' = false) :
    c :: left ≠ escaped c ++ right := by
  intro same
  obtain ⟨rest, whole⟩ := escaped_cons c
  rw [whole] at same
  cases (List.cons.inj same).1
  exact Bool.false_ne_true (strict.symm.trans kept)

theorem encode_eq_iff (strict : safe '%' = false) (strict' : other '%' = false) :
    encode safe text = encode other text ↔ ∀ c ∈ text, safe c = other c := by
  refine ⟨fun same => ?_, encode_congr⟩
  induction text with
  | nil => intro c member; cases member
  | cons c text ih =>
    rw [encode_cons, encode_cons, encodeChar, encodeChar] at same
    have agree : safe c = other c := by
      cases kept : safe c with
      | true =>
        cases kept' : other c with
        | true => rfl
        | false =>
          rw [kept, kept'] at same
          exact absurd same (escaped_ne kept strict)
      | false =>
        cases kept' : other c with
        | false => rfl
        | true =>
          rw [kept, kept'] at same
          exact absurd same.symm (escaped_ne kept' strict')
    rw [agree] at same
    intro d member
    rcases List.mem_cons.mp member with rfl | member
    · exact agree
    · exact ih (List.append_cancel_left same) d member

theorem mem_encode {c : Char} (member : c ∈ encode safe text) : safe c = true ∨ c = '%' ∨ ∃ n < 16, c = hexDigit n := by
  obtain ⟨d, _, inside⟩ := List.mem_flatMap.mp member
  unfold encodeChar at inside
  split at inside
  next kept =>
    rw [List.mem_singleton.mp inside]
    exact .inl kept
  · obtain ⟨b, _, digit⟩ := List.mem_flatMap.mp inside
    have bound := b.toNat_lt
    simp only [List.mem_cons, List.not_mem_nil, or_false] at digit
    rcases digit with same | same | same
    · exact .inr (.inl same)
    · exact .inr (.inr ⟨_, by omega, same⟩)
    · exact .inr (.inr ⟨_, by omega, same⟩)

/-- Encoding piece by piece leaves the separator as it is. -/
theorem encode_pieces (separator : Char) : [separator].intercalate ((text.splitOn separator).map (encode safe)) =
    encode (fun c => safe c || c == separator) text := by
  induction text with
  | nil => simp [encode]
  | cons c text ih =>
    rw [encode_cons, ← ih, List.splitOn_cons_eq_if_modifyHead, encodeChar]
    have filled := List.splitOn_ne_nil separator text
    generalize text.splitOn separator = pieces at filled
    cases pieces with
    | nil => exact (filled rfl).elim
    | cons piece pieces =>
      by_cases same : c = separator
      · subst same
        simp [List.intercalate_cons_cons, encode]
      · have plain : (c == separator) = false := beq_eq_false_iff_ne.mpr same
        simp only [plain, Bool.or_false, Bool.false_eq_true, if_false, List.modifyHead_cons, List.map_cons, encode_cons]
        cases pieces <;> simp [List.intercalate_cons_cons, encodeChar]

end Systems.Percent
