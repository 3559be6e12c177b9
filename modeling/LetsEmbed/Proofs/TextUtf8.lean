import LetsEmbed.Text

/-! Lossy decoding as a decoder of one character after another: it keeps ASCII
bytes where they stand, so it commutes with splitting at one, and it reads back
what encoding wrote. -/

namespace LetsEmbed.Text

/-- What `lossyChars` computes once it has fuel for every byte. -/
def lossy (bytes : List UInt8) : List Char := lossyChars bytes.length bytes

theorem fromUtf8Lossy_eq (bytes : List UInt8) : fromUtf8Lossy bytes = String.ofList (lossy bytes) := rfl

section Continuation
variable {more code value : Nat} {low high a : UInt8} {xs rest : List UInt8}

theorem continuation_cons {b : UInt8} : continuation (more + 1) low high code (b :: xs) =
    if low ≤ b ∧ b ≤ high then continuation more 0x80 0xBF (code * 64 + (b.toNat - 0x80)) xs else .error (b :: xs) :=
  rfl

def remaining : Except (List UInt8) (Nat × List UInt8) → List UInt8
  | .ok (_, rest) | .error rest => rest

theorem continuation_suffix : remaining (continuation more low high code xs) <:+ xs := by
  induction more generalizing low high code xs with
  | zero => exact List.suffix_rfl
  | succ more ih =>
    cases xs with
    | nil => exact List.suffix_rfl
    | cons b xs =>
      rw [continuation_cons]
      split
      · exact ih.trans (List.suffix_cons b xs)
      · exact List.suffix_rfl

theorem continuation_ok (read : continuation (more + 1) low high code xs = .ok (value, rest)) :
    ∃ b ys, xs = b :: ys ∧ low.toNat ≤ b.toNat ∧ b.toNat ≤ high.toNat ∧
      continuation more 0x80 0xBF (code * 64 + (b.toNat - 0x80)) ys = .ok (value, rest) := by
  cases xs with
  | nil => cases read
  | cons b ys =>
    rw [continuation_cons] at read
    split at read
    next inside => exact ⟨b, ys, rfl, UInt8.le_iff_toNat_le.mp inside.1, UInt8.le_iff_toNat_le.mp inside.2, read⟩
    · cases read

theorem continuation_append_ok {more' : List UInt8} (read : continuation more low high code xs = .ok (value, rest)) :
    continuation more low high code (xs ++ more') = .ok (value, rest ++ more') := by
  induction more generalizing low high code xs with
  | zero =>
    cases read
    rfl
  | succ more ih =>
    cases xs with
    | nil => cases read
    | cons b xs =>
      rw [continuation_cons] at read
      rw [List.cons_append, continuation_cons]
      split at read
      next inside =>
        rw [if_pos inside]
        exact ih read
      · cases read

/-- A byte below every continuation byte breaks a sequence off where it stands. -/
theorem continuation_append_error {ys : List UInt8} (below : a < 0x80) (least : 0x80 ≤ low)
    (broken : continuation more low high code xs = .error rest) :
    continuation more low high code (xs ++ a :: ys) = .error (rest ++ a :: ys) := by
  induction more generalizing low high code xs with
  | zero => cases broken
  | succ more ih =>
    cases xs with
    | nil =>
      cases broken
      have outside : ¬ (low ≤ a ∧ a ≤ high) := fun inside =>
        absurd below (UInt8.not_lt.mpr (UInt8.le_trans least inside.1))
      rw [List.nil_append, continuation_cons, if_neg outside]
    | cons b xs =>
      rw [continuation_cons] at broken
      rw [List.cons_append, continuation_cons]
      split at broken
      next inside =>
        rw [if_pos inside]
        exact ih (by decide) broken
      next outside =>
        cases broken
        rw [if_neg outside]
        rfl

end Continuation

section Steps
variable {b : UInt8} {xs rest : List UInt8} {more code value : Nat} {low high : UInt8}

theorem lossyChars_fuel {fuel : Nat} (enough : xs.length ≤ fuel) : lossyChars fuel xs = lossy xs := by
  rw [lossy]
  induction fuel using Nat.strong_induction_on generalizing xs with
  | _ fuel ih =>
    cases fuel with
    | zero =>
      cases xs with
      | nil => rfl
      | cons b xs => simp at enough
    | succ fuel =>
      cases xs with
      | nil => rfl
      | cons b xs =>
        have fits : xs.length ≤ fuel := Nat.le_of_succ_le_succ enough
        have same (rest : List UInt8) (shorter : rest.length ≤ xs.length) :
            lossyChars fuel rest = lossyChars xs.length rest := by
          rw [ih fuel (Nat.lt_succ_self _) (Nat.le_trans shorter fits)]
          by_cases smaller : xs.length < fuel + 1
          · rw [ih xs.length smaller shorter]
          · omega
        simp only [lossyChars, List.length_cons]
        cases lead : leadByte b with
        | none => simp only [same xs (Nat.le_refl _)]
        | some announced =>
          obtain ⟨more, low, high, code⟩ := announced
          have shorter := (@continuation_suffix more code low high xs).length_le
          dsimp only
          cases read : continuation more low high code xs with
          | ok result =>
            rw [read] at shorter
            simp only [same result.2 shorter]
          | error rest =>
            rw [read] at shorter
            simp only [same rest shorter]

theorem lossy_invalid (lead : leadByte b = none) : lossy (b :: xs) = '\uFFFD' :: lossy xs := by
  unfold lossy
  simp only [List.length_cons, lossyChars, lead]

theorem lossy_char (lead : leadByte b = some (more, low, high, code))
    (read : continuation more low high code xs = .ok (value, rest)) :
    lossy (b :: xs) = Char.ofNat value :: lossy rest := by
  have shorter : rest.length ≤ xs.length := by
    simpa [read, remaining] using (@continuation_suffix more code low high xs).length_le
  rw [← lossyChars_fuel shorter, lossy]
  simp only [List.length_cons, lossyChars, lead, read]

theorem lossy_broken (lead : leadByte b = some (more, low, high, code))
    (broken : continuation more low high code xs = .error rest) :
    lossy (b :: xs) = '\uFFFD' :: lossy rest := by
  have shorter : rest.length ≤ xs.length := by
    simpa [broken, remaining] using (@continuation_suffix more code low high xs).length_le
  rw [← lossyChars_fuel shorter, lossy]
  simp only [List.length_cons, lossyChars, lead, broken]

end Steps

section Characters
variable {b : UInt8} {xs rest : List UInt8} {more code value : Nat} {low high : UInt8}

theorem leadByte_ascii (ascii : b < 0x80) : leadByte b = some (0, 0x80, 0xBF, b.toNat) := if_pos ascii

theorem ofNat_toNat {n : Nat} (valid : n.isValidChar) : (Char.ofNat n).toNat = n := by
  rw [Char.ofNat, dif_pos valid]
  rfl

/-- A lead byte announces as many bytes as keep the code points of its length
apart from the shorter ones, the surrogates and what lies above Unicode. -/
theorem leadByte_cases (lead : leadByte b = some (more, low, high, code)) :
    more = 0 ∧ b < 0x80 ∧ code = b.toNat ∨
    0x80 ≤ low ∧ (more = 1 ∧ low.toNat = 128 ∧ high.toNat = 191 ∧ 2 ≤ code ∧ code ≤ 31 ∨
      more = 2 ∧ (low.toNat = 160 ∧ high.toNat = 191 ∧ code = 0 ∨ low.toNat = 128 ∧ high.toNat = 159 ∧ code = 13 ∨
        low.toNat = 128 ∧ high.toNat = 191 ∧ 1 ≤ code ∧ code ≤ 15 ∧ code ≠ 13) ∨
      more = 3 ∧ (low.toNat = 144 ∧ high.toNat = 191 ∧ code = 0 ∨ low.toNat = 128 ∧ high.toNat = 143 ∧ code = 4 ∨
        low.toNat = 128 ∧ high.toNat = 191 ∧ 1 ≤ code ∧ code ≤ 3)) := by
  rw [leadByte] at lead
  simp only [UInt8.lt_iff_toNat_lt, UInt8.le_iff_toNat_le, ← UInt8.toNat_inj, UInt8.reduceToNat] at lead ⊢
  split at lead
  next ascii =>
    cases lead
    exact .inl ⟨rfl, ascii, rfl⟩
  right
  repeat' split at lead
  all_goals simp only [Option.some.injEq, Prod.mk.injEq, reduceCtorEq] at lead
  all_goals
    obtain ⟨rfl, rfl, rfl, rfl⟩ := lead
    simp <;> omega

theorem continuation_value (lead : leadByte b = some (more, low, high, code))
    (read : continuation more low high code xs = .ok (value, rest)) :
    b < 0x80 ∧ value = b.toNat ∧ rest = xs ∨ 0x80 ≤ value ∧ value.isValidChar := by
  rcases leadByte_cases lead with ⟨rfl, ascii, rfl⟩ | ⟨_, wide⟩
  · cases read
    exact .inl ⟨ascii, rfl, rfl⟩
  · right
    have bound : (0x80 : UInt8).toNat = 128 ∧ (0xBF : UInt8).toNat = 191 := ⟨rfl, rfl⟩
    rw [Nat.isValidChar]
    rcases wide with ⟨rfl, wide⟩ | ⟨rfl, wide⟩ | ⟨rfl, wide⟩
    · obtain ⟨c, ys, rfl, least, most, read⟩ := continuation_ok read
      simp only [continuation, Except.ok.injEq, Prod.mk.injEq] at read
      omega
    · obtain ⟨c, ys, rfl, least, most, read⟩ := continuation_ok read
      obtain ⟨d, ys, rfl, least', most', read⟩ := continuation_ok read
      simp only [continuation, Except.ok.injEq, Prod.mk.injEq] at read
      omega
    · obtain ⟨c, ys, rfl, least, most, read⟩ := continuation_ok read
      obtain ⟨d, ys, rfl, least', most', read⟩ := continuation_ok read
      obtain ⟨e, ys, rfl, least'', most'', read⟩ := continuation_ok read
      simp only [continuation, Except.ok.injEq, Prod.mk.injEq] at read
      omega

/-- One character of a lossy decoding, and the bytes it leaves: an ASCII byte
stands for itself, and everything else is a character above ASCII. -/
theorem lossy_cons (b : UInt8) (xs : List UInt8) : ∃ c rest, lossy (b :: xs) = c :: lossy rest ∧ rest <:+ xs ∧
    (b < 0x80 ∧ c = Char.ofNat b.toNat ∧ rest = xs ∨ 0x80 ≤ b ∧ 0x80 ≤ c.toNat) := by
  cases lead : leadByte b with
  | none =>
    refine ⟨_, xs, lossy_invalid lead, List.suffix_rfl, .inr ⟨?_, by decide⟩⟩
    apply UInt8.not_lt.mp
    intro ascii
    cases lead.symm.trans (leadByte_ascii ascii)
  | some announced =>
    obtain ⟨more, low, high, code⟩ := announced
    have tail := @continuation_suffix more code low high xs
    cases read : continuation more low high code xs with
    | error rest =>
      rw [read] at tail
      refine ⟨_, rest, lossy_broken lead read, tail, .inr ⟨?_, by decide⟩⟩
      apply UInt8.not_lt.mp
      intro ascii
      cases lead.symm.trans (leadByte_ascii ascii)
      cases read
    | ok result =>
      obtain ⟨value, rest⟩ := result
      rw [read] at tail
      refine ⟨_, rest, lossy_char lead read, tail, ?_⟩
      rcases continuation_value lead read with ⟨ascii, rfl, same⟩ | ⟨above, valid⟩
      · exact .inl ⟨ascii, rfl, same⟩
      · refine .inr ⟨?_, by rwa [ofNat_toNat valid]⟩
        apply UInt8.not_lt.mp
        intro ascii
        cases lead.symm.trans (leadByte_ascii ascii)
        cases read
        exact absurd (UInt8.lt_iff_toNat_lt.mp ascii) (Nat.not_lt.mpr above)

theorem lossy_cons_ascii (ascii : b < 0x80) : lossy (b :: xs) = Char.ofNat b.toNat :: lossy xs :=
  lossy_char (leadByte_ascii ascii) rfl

theorem lossy_append_ascii {a : UInt8} {ys : List UInt8} (ascii : a < 0x80) :
    lossy (xs ++ a :: ys) = lossy xs ++ Char.ofNat a.toNat :: lossy ys := by
  induction h : xs.length using Nat.strong_induction_on generalizing xs with
  | _ n ih =>
    subst h
    cases xs with
    | nil => exact lossy_cons_ascii ascii
    | cons b xs =>
      rw [List.cons_append]
      cases lead : leadByte b with
      | none =>
        rw [lossy_invalid lead, lossy_invalid lead, ih xs.length (by simp) rfl]
        rfl
      | some announced =>
        obtain ⟨more, low, high, code⟩ := announced
        have shorter := (@continuation_suffix more code low high xs).length_le
        have least : 0x80 ≤ low := by
          rcases leadByte_cases lead with ⟨rfl, ascii, rfl⟩ | ⟨least, _⟩
          · rw [leadByte_ascii ascii] at lead
            cases lead
            decide
          · exact least
        cases read : continuation more low high code xs with
        | ok result =>
          obtain ⟨value, rest⟩ := result
          rw [read] at shorter
          rw [lossy_char lead read, lossy_char lead (continuation_append_ok read),
            ih rest.length (Nat.lt_succ_of_le shorter) rfl]
          rfl
        | error rest =>
          rw [read] at shorter
          rw [lossy_broken lead read, lossy_broken lead (continuation_append_error ascii least read),
            ih rest.length (Nat.lt_succ_of_le shorter) rfl]
          rfl

end Characters

section Ascii
variable {a : UInt8} {xs : List UInt8}

theorem ofNat_ascii (ascii : a < 0x80) : (Char.ofNat a.toNat).toNat = a.toNat := by
  apply ofNat_toNat
  have small : a.toNat < 128 := UInt8.lt_iff_toNat_lt.mp ascii
  exact .inl (by omega)

theorem ofNat_ascii_inj {b : UInt8} (first : a < 0x80) (second : b < 0x80)
    (same : Char.ofNat a.toNat = Char.ofNat b.toNat) : a = b := by
  have codes := congrArg Char.toNat same
  rw [ofNat_ascii first, ofNat_ascii second] at codes
  exact UInt8.toNat_inj.mp codes

theorem mem_of_mem_lossy (ascii : a < 0x80) (member : Char.ofNat a.toNat ∈ lossy xs) : a ∈ xs := by
  induction h : xs.length using Nat.strong_induction_on generalizing xs with
  | _ n ih =>
    subst h
    cases xs with
    | nil => cases member
    | cons b xs =>
      obtain ⟨c, rest, step, tail, kind⟩ := lossy_cons b xs
      rw [step] at member
      rcases List.mem_cons.mp member with same | later
      · rcases kind with ⟨own, rfl, _⟩ | ⟨_, above⟩
        · exact List.mem_cons.mpr (.inl (ofNat_ascii_inj ascii own same))
        · rw [← same, ofNat_ascii ascii] at above
          exact absurd (UInt8.lt_iff_toNat_lt.mp ascii) (Nat.not_lt.mpr above)
      · have found := ih rest.length (Nat.lt_succ_of_le tail.length_le) later rfl
        exact List.mem_cons_of_mem b (tail.subset found)

theorem mem_lossy (ascii : a < 0x80) (member : a ∈ xs) : Char.ofNat a.toNat ∈ lossy xs := by
  obtain ⟨before, after, whole⟩ := List.append_of_mem member
  rw [whole, lossy_append_ascii ascii]
  exact List.mem_append_right _ List.mem_cons_self

/-- Splitting at an ASCII byte and decoding commute. -/
theorem lossy_splitOn (ascii : a < 0x80) :
    (lossy xs).splitOn (Char.ofNat a.toNat) = (xs.splitOn a).map lossy := by
  induction h : xs.length using Nat.strong_induction_on generalizing xs with
  | _ n ih =>
    subst h
    by_cases member : a ∈ xs
    · obtain ⟨first, rest, rfl, clean⟩ := List.eq_append_cons_of_mem member
      rw [lossy_append_ascii ascii, List.splitOn_append_cons_self, List.splitOn_append_cons_self,
        List.splitOn_eq_singleton clean, List.splitOn_eq_singleton (mt (mem_of_mem_lossy ascii) clean),
        ih rest.length (by simp; omega) rfl]
      rfl
    · rw [List.splitOn_eq_singleton member, List.splitOn_eq_singleton (mt (mem_of_mem_lossy ascii) member)]
      rfl

/-- Nothing but ASCII bytes decodes to ASCII text. -/
theorem lossy_eq_ascii {ys : List UInt8} (all : ∀ b ∈ ys, b < 0x80) : lossy xs = lossy ys ↔ xs = ys := by
  constructor
  · intro same
    induction ys generalizing xs with
    | nil =>
      cases xs with
      | nil => rfl
      | cons b xs =>
        obtain ⟨c, rest, step, _⟩ := lossy_cons b xs
        cases step.symm.trans same
    | cons a ys ih =>
      have ascii := all a List.mem_cons_self
      rw [lossy_cons_ascii ascii] at same
      cases xs with
      | nil => cases same
      | cons b xs =>
        obtain ⟨c, rest, step, _, kind⟩ := lossy_cons b xs
        rw [step, List.cons.injEq] at same
        rcases kind with ⟨own, rfl, rfl⟩ | ⟨_, above⟩
        · rw [ofNat_ascii_inj own ascii same.1, ih (fun c member => all c (List.mem_cons_of_mem a member)) same.2]
        · rw [same.1, ofNat_ascii ascii] at above
          exact absurd (UInt8.lt_iff_toNat_lt.mp ascii) (Nat.not_lt.mpr above)
  · rintro rfl
    rfl

end Ascii

section Encoding

theorem leadByte_two {v : Nat} (low : 2 ≤ v) (high : v < 32) :
    leadByte (UInt8.ofNat (v + 0xC0)) = some (1, 0x80, 0xBF, v) := by
  have all : ∀ v < 32, v < 2 ∨ leadByte (UInt8.ofNat (v + 0xC0)) = some (1, 0x80, 0xBF, v) := by decide
  exact (all v high).resolve_left (Nat.not_lt.mpr low)

theorem leadByte_three : ∀ v < 16, leadByte (UInt8.ofNat (v + 0xE0)) =
    some (2, if v = 0 then 0xA0 else 0x80, if v = 13 then 0x9F else 0xBF, v) := by decide

theorem leadByte_four : ∀ v < 5, leadByte (UInt8.ofNat (v + 0xF0)) =
    some (3, if v = 0 then 0x90 else 0x80, if v = 4 then 0x8F else 0xBF, v) := by decide

/-- A continuation byte written by the encoder is read back. -/
theorem continuation_encoded {more code v : Nat} {low high : UInt8} {rest : List UInt8} (small : v < 64)
    (least : low.toNat ≤ v + 0x80) (most : v + 0x80 ≤ high.toNat) :
    continuation (more + 1) low high code (UInt8.ofNat (v + 0x80) :: rest) =
      continuation more 0x80 0xBF (code * 64 + v) rest := by
  have byte : (UInt8.ofNat (v + 0x80)).toNat = v + 0x80 := by
    rw [UInt8.toNat_ofNat']
    omega
  have inside : low ≤ UInt8.ofNat (v + 0x80) ∧ UInt8.ofNat (v + 0x80) ≤ high := by
    rw [UInt8.le_iff_toNat_le, UInt8.le_iff_toNat_le, byte]
    exact ⟨least, most⟩
  rw [continuation_cons, if_pos inside, byte, Nat.add_sub_cancel]

theorem lossy_encodeChar (c : Char) (rest : List UInt8) : lossy (String.utf8EncodeChar c ++ rest) = c :: lossy rest := by
  have whole : Char.ofNat c.val.toNat = c := Char.ofNat_toNat c
  have valid : c.val.toNat < 0xD800 ∨ 0xDFFF < c.val.toNat ∧ c.val.toNat < 0x110000 := c.valid
  have bound : (0x80 : UInt8).toNat = 128 ∧ (0xBF : UInt8).toNat = 191 := ⟨rfl, rfl⟩
  rw [String.utf8EncodeChar]
  generalize c.val.toNat = n at whole valid ⊢
  split
  next one =>
    have byte : (UInt8.ofNat n).toNat = n := by
      rw [UInt8.toNat_ofNat']
      omega
    have ascii : UInt8.ofNat n < 0x80 := by
      rw [UInt8.lt_iff_toNat_lt, byte]
      exact Nat.lt_succ_of_le one
    rw [List.singleton_append, lossy_cons_ascii ascii, byte, whole]
  next more =>
    split
    next two =>
      rw [Nat.mod_eq_of_lt (by omega : n / 64 < 32)]
      simp only [List.cons_append, List.nil_append]
      have read : continuation 1 0x80 0xBF (n / 64) (UInt8.ofNat (n % 64 + 0x80) :: rest) = .ok (n, rest) := by
        rw [continuation_encoded (by omega) (by omega) (by omega), continuation]
        simp only [Except.ok.injEq, Prod.mk.injEq, and_true]
        omega
      rw [lossy_char (leadByte_two (by omega) (by omega)) read, whole]
    next more =>
      split
      next three =>
        rw [Nat.mod_eq_of_lt (by omega : n / 4096 < 16)]
        simp only [List.cons_append, List.nil_append]
        have least : (if n / 4096 = 0 then 0xA0 else 0x80 : UInt8).toNat ≤ n / 64 % 64 + 0x80 := by
          split
          · change 160 ≤ _
            omega
          · omega
        have most : n / 64 % 64 + 0x80 ≤ (if n / 4096 = 13 then 0x9F else 0xBF : UInt8).toNat := by
          split
          · change _ ≤ 159
            omega
          · omega
        have read : continuation 2 (if n / 4096 = 0 then 0xA0 else 0x80) (if n / 4096 = 13 then 0x9F else 0xBF) (n / 4096)
            (UInt8.ofNat (n / 64 % 64 + 0x80) :: UInt8.ofNat (n % 64 + 0x80) :: rest) = .ok (n, rest) := by
          rw [continuation_encoded (by omega) least most, continuation_encoded (by omega) (by omega) (by omega),
            continuation]
          simp only [Except.ok.injEq, Prod.mk.injEq, and_true]
          omega
        rw [lossy_char (leadByte_three _ (by omega)) read, whole]
      next more =>
        rw [Nat.mod_eq_of_lt (by omega : n / 262144 < 8)]
        simp only [List.cons_append, List.nil_append]
        have least : (if n / 262144 = 0 then 0x90 else 0x80 : UInt8).toNat ≤ n / 4096 % 64 + 0x80 := by
          split
          · change 144 ≤ _
            omega
          · omega
        have most : n / 4096 % 64 + 0x80 ≤ (if n / 262144 = 4 then 0x8F else 0xBF : UInt8).toNat := by
          split
          · change _ ≤ 143
            omega
          · omega
        have read : continuation 3 (if n / 262144 = 0 then 0x90 else 0x80) (if n / 262144 = 4 then 0x8F else 0xBF)
            (n / 262144) (UInt8.ofNat (n / 4096 % 64 + 0x80) :: UInt8.ofNat (n / 64 % 64 + 0x80) ::
              UInt8.ofNat (n % 64 + 0x80) :: rest) = .ok (n, rest) := by
          rw [continuation_encoded (by omega) least most, continuation_encoded (by omega) (by omega) (by omega),
            continuation_encoded (by omega) (by omega) (by omega), continuation]
          simp only [Except.ok.injEq, Prod.mk.injEq, and_true]
          omega
        rw [lossy_char (leadByte_four _ (by omega)) read, whole]

theorem lossy_encode (chars : List Char) : lossy (chars.flatMap String.utf8EncodeChar) = chars := by
  induction chars with
  | nil => rfl
  | cons c rest ih => rw [List.flatMap_cons, lossy_encodeChar, ih]

/-- An ASCII byte stands for itself only. -/
theorem eq_of_mem_encodeChar {a : UInt8} {c : Char} (ascii : a < 0x80) (member : a ∈ String.utf8EncodeChar c) :
    c = Char.ofNat a.toNat := by
  have found := mem_lossy ascii member
  have single := lossy_encodeChar c []
  rw [List.append_nil] at single
  rw [single] at found
  exact (List.mem_singleton.mp found).symm

/-- Valid UTF-8 is read back. -/
theorem fromUtf8Lossy_bytes (s : String) : fromUtf8Lossy (bytes s) = s := by
  rw [fromUtf8Lossy_eq, bytes, lossy_encode, String.ofList_toList]

end Encoding

end LetsEmbed.Text
