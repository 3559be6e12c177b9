import LetsEmbed.Proofs.TextDigits
import LetsEmbed.Siwe

/-! The date-times of RFC 3339, and how one is scanned by the places of its bytes. -/

namespace LetsEmbed.Siwe
open Systems Text

/-- A number written in this many decimal digits. -/
structure Numeral (width : Nat) where
  digits : List Char
  size : digits.length = width
  decimal : Digits 10 digits

def Numeral.value {width : Nat} (n : Numeral width) : Nat := Radix.value 10 (n.digits.map (digitOf 10))

inductive Offset where
  | zulu (lower : Bool)
  | shift (negative : Bool) (hour minute : Numeral 2)

namespace Offset

def chars : Offset → List Char
  | .zulu lower => [if lower then 'z' else 'Z']
  | .shift negative hour minute => (if negative then '-' else '+') :: (hour.digits ++ ':' :: minute.digits)

def Ranged : Offset → Prop
  | .zulu _ => True
  | .shift _ hour minute => hour.value ≤ 23 ∧ minute.value ≤ 59

def secs : Offset → Int
  | .zulu _ => 0
  | .shift negative hour minute =>
    let mag : Int := hour.value * 3600 + minute.value * 60
    if negative then -mag else mag

end Offset

structure Stamp where
  year : Numeral 4
  month : Numeral 2
  day : Numeral 2
  lower : Bool
  hour : Numeral 2
  minute : Numeral 2
  second : Numeral 2
  fraction : Option ((more : Nat) × Numeral (more + 1))
  offset : Offset

namespace Stamp

def front (t : Stamp) : List Char :=
  t.year.digits ++ '-' :: (t.month.digits ++ '-' :: (t.day.digits ++ (if t.lower then 't' else 'T') ::
    (t.hour.digits ++ ':' :: (t.minute.digits ++ ':' :: t.second.digits))))

def fractionChars : Option ((more : Nat) × Numeral (more + 1)) → List Char
  | none => []
  | some ⟨_, digits⟩ => '.' :: digits.digits

def chars (t : Stamp) : List Char := t.front ++ (fractionChars t.fraction ++ t.offset.chars)

/-- All but the day are in range. -/
structure Ranged (t : Stamp) : Prop where
  month : 1 ≤ t.month.value ∧ t.month.value ≤ 12
  time : t.hour.value ≤ 23 ∧ t.minute.value ≤ 59 ∧ t.second.value ≤ 59
  offset : t.offset.Ranged

end Stamp

def byte (c : Char) : UInt8 := UInt8.ofNat c.toNat

def ascii (chars : List Char) : List UInt8 := chars.map byte

theorem ascii_append {chars more : List Char} : ascii (chars ++ more) = ascii chars ++ ascii more := List.map_append

section Scan
variable {b p q : List UInt8} {i k v : Nat} {c : Char}

theorem append_prefix_iff : p ++ q <+: b ↔ p <+: b ∧ q <+: b.drop p.length := by
  constructor
  · intro ⟨rest, whole⟩
    subst whole
    rw [List.append_assoc, List.drop_left]
    exact ⟨List.prefix_append .., List.prefix_append ..⟩
  · intro ⟨⟨rest, whole⟩, later⟩
    subst whole
    rw [List.drop_left] at later
    exact (List.prefix_append_right_inj p).mpr later

theorem sep_iff : sep b i c = true ↔ [byte c] <+: b.drop i := by
  rw [sep, decide_eq_true_iff, ← List.head?_drop]
  cases b.drop i with
  | nil => simp
  | cons x rest => simp [byte, eq_comm]

theorem decimal_byte (digit : (toDigit 10 c).isSome = true) : isDigit (byte c) = true ∧ (byte c).toNat - 48 = digitOf 10 c := by
  have every : ∀ n < 128, (toDigit 10 (Char.ofNat n)).isSome = true → isDigit (byte (Char.ofNat n)) = true ∧
      (byte (Char.ofNat n)).toNat - 48 = digitOf 10 (Char.ofNat n) := by decide +kernel
  have ascii := digit_ascii digit
  rw [← Char.ofNat_toNat c] at digit ⊢
  exact every c.toNat ascii digit

theorem byte_decimal {x : UInt8} (digit : isDigit x = true) : ∃ c, byte c = x ∧ (toDigit 10 c).isSome = true := by
  have every : ∀ n < 256, isDigit (UInt8.ofNat n) = true →
      byte (Char.ofNat n) = UInt8.ofNat n ∧ (toDigit 10 (Char.ofNat n)).isSome = true := by decide +kernel
  have found := every x.toNat x.toNat_lt
  rw [UInt8.ofNat_toNat] at found
  exact ⟨_, found digit⟩

/-- What `num` reads of bytes that are digits. -/
theorem ascii_value {digits : List Char} (decimal : Digits 10 digits) : (ascii digits).all isDigit = true ∧
    (ascii digits).foldl (fun value digit => value * 10 + (digit.toNat - 48)) 0 = Radix.value 10 (digits.map (digitOf 10)) := by
  constructor
  · rw [ascii, List.all_map, List.all_eq_true]
    exact fun c member => (decimal_byte (decimal c member)).1
  · rw [ascii, Radix.value, List.foldl_map, List.foldl_map]
    apply List.foldl_ext
    intro value c member
    rw [(decimal_byte (decimal c member)).2]

theorem ascii_of_decimal (decimal : p.all isDigit = true) : ∃ digits, ascii digits = p ∧ Digits 10 digits := by
  induction p with
  | nil => exact ⟨[], rfl, List.forall_mem_nil _⟩
  | cons x rest ih =>
    obtain ⟨first, others⟩ := Bool.and_eq_true_iff.mp (List.all_cons.symm.trans decimal)
    obtain ⟨c, same, digit⟩ := byte_decimal first
    obtain ⟨digits, spelled, decimal⟩ := ih others
    exact ⟨c :: digits, by rw [ascii, List.map_cons, same]; exact congrArg _ spelled, List.forall_mem_cons.mpr ⟨digit, decimal⟩⟩

theorem num_iff (positive : 0 < k) :
    num b i (i + k) = some v ↔ ∃ n : Numeral k, ascii n.digits <+: b.drop i ∧ n.value = v := by
  rw [num, Nat.add_sub_cancel_left]
  constructor
  · intro read
    split at read
    next inside =>
      obtain ⟨digits, spelled, decimal⟩ := ascii_of_decimal inside.2
      have size : digits.length = k := by
        have length := congrArg List.length spelled
        rw [ascii, List.length_map, List.length_take, List.length_drop] at length
        omega
      refine ⟨⟨digits, size, decimal⟩, ?_, ?_⟩
      · rw [spelled]
        exact List.take_prefix ..
      · cases read
        rw [← spelled, (ascii_value decimal).2]
        rfl
    · cases read
  · intro ⟨n, starts, same⟩
    obtain ⟨decimal, value⟩ := ascii_value n.decimal
    have size : (ascii n.digits).length = k := List.length_map _ |>.trans n.size
    have part := List.prefix_iff_eq_take.mp starts
    rw [size] at part
    have fits := starts.length_le
    rw [size, List.length_drop] at fits
    rw [← part, if_pos ⟨by omega, decimal⟩, value, ← same]
    rfl

theorem cons_prefix_iff {more : List Char} : ascii (c :: more) <+: b.drop i ↔
    sep b i c = true ∧ ascii more <+: b.drop (i + 1) := by
  rw [sep_iff, ← List.drop_drop]
  exact append_prefix_iff (p := [byte c])

theorem numeral_prefix_iff {more : List Char} {n : Numeral k} : ascii (n.digits ++ more) <+: b.drop i ↔
    ascii n.digits <+: b.drop i ∧ ascii more <+: b.drop (i + k) := by
  have size : (ascii n.digits).length = k := (List.length_map _).trans n.size
  rw [ascii, List.map_append, append_prefix_iff, List.drop_drop]
  change _ ∧ _ <+: b.drop (i + (ascii n.digits).length) ↔ _
  rw [size]
  rfl

/-- The places of a date-time up to its seconds. -/
theorem front_iff {t : Stamp} : ascii t.front <+: b ↔
    (ascii t.year.digits <+: b.drop 0 ∧ ascii t.month.digits <+: b.drop 5 ∧ ascii t.day.digits <+: b.drop 8 ∧
      ascii t.hour.digits <+: b.drop 11 ∧ ascii t.minute.digits <+: b.drop 14 ∧ ascii t.second.digits <+: b.drop 17) ∧
    sep b 4 '-' = true ∧ sep b 7 '-' = true ∧ sep b 10 (if t.lower then 't' else 'T') = true ∧
      sep b 13 ':' = true ∧ sep b 16 ':' = true := by
  have whole : ascii t.front <+: b ↔ ascii t.front <+: b.drop 0 := Iff.rfl
  rw [whole, Stamp.front]
  simp only [numeral_prefix_iff, cons_prefix_iff, Nat.reduceAdd]
  tauto

theorem front_length {t : Stamp} : t.front.length = 19 := by
  simp only [Stamp.front, List.length_append, List.length_cons, Numeral.size]

theorem ends_iff {part : List Char} (nonempty : part ≠ []) :
    b.drop i = ascii part ↔ ascii part <+: b.drop i ∧ i + part.length = b.length := by
  have size : (ascii part).length = part.length := List.length_map _
  have positive := List.length_pos_iff.mpr nonempty
  constructor
  · intro same
    have length := congrArg List.length same
    rw [size, List.length_drop] at length
    exact ⟨same ▸ List.prefix_rfl, by omega⟩
  · intro ⟨starts, length⟩
    exact (starts.eq_of_length (by rw [size, List.length_drop]; omega)).symm

theorem sep_eq : sep b i c = true ↔ b[i]? = some (byte c) := by
  rw [sep, decide_eq_true_iff]
  rfl

theorem offsetSecs_sound {off : Int} (read : offsetSecs b i = some off) :
    ∃ o : Offset, b.drop i = ascii o.chars ∧ o.Ranged ∧ o.secs = off := by
  rw [offsetSecs] at read
  split at read
  next zulu =>
    rw [Bool.and_eq_true, Bool.or_eq_true, decide_eq_true_iff] at zulu
    obtain ⟨letter, length⟩ := zulu
    have whole {c : Char} (here : sep b i c = true) : b.drop i = ascii [c] :=
      (ends_iff (List.cons_ne_nil _ _)).mpr ⟨sep_iff.mp here, length⟩
    cases letter with
    | inl upper => exact ⟨.zulu false, whole upper, trivial, Option.some.inj read⟩
    | inr lower => exact ⟨.zulu true, whole lower, trivial, Option.some.inj read⟩
  split at read
  next shifted =>
    simp only [Bool.and_eq_true, Bool.or_eq_true, decide_eq_true_iff] at shifted
    obtain ⟨⟨sign, length⟩, colon⟩ := shifted
    obtain ⟨oh, hours, read⟩ := Option.bind_eq_some_iff.mp read
    obtain ⟨om, minutes, read⟩ := Option.bind_eq_some_iff.mp read
    obtain ⟨hour, hourHere, hourValue⟩ := (num_iff (k := 2) (by decide)).mp hours
    obtain ⟨minute, minuteHere, minuteValue⟩ := (num_iff (k := 2) (by decide)).mp minutes
    have whole {negative : Bool} (here : sep b i (if negative then '-' else '+') = true) :
        b.drop i = ascii (Offset.shift negative hour minute).chars := by
      refine (ends_iff (List.cons_ne_nil _ _)).mpr ⟨?_, ?_⟩
      · simp only [cons_prefix_iff, numeral_prefix_iff]
        exact ⟨here, hourHere, colon, minuteHere⟩
      · simp only [List.length_cons, List.length_append, Numeral.size]
        exact length
    split at read
    · cases read
    next ranged =>
      have within : hour.value ≤ 23 ∧ minute.value ≤ 59 := by omega
      subst hourValue minuteValue
      cases plus : sep b i '+' with
      | true =>
        simp only [plus, if_true] at read
        exact ⟨.shift false hour minute, whole plus, within, Option.some.inj read⟩
      | false =>
        simp only [plus, Bool.false_eq_true, if_false] at read
        exact ⟨.shift true hour minute, whole (sign.resolve_left (by simp [plus])), within, Option.some.inj read⟩
  · cases read

theorem offsetSecs_complete {o : Offset} (tail : b.drop i = ascii o.chars) (ranged : o.Ranged) :
    offsetSecs b i = some o.secs := by
  cases o with
  | zulu lower =>
    obtain ⟨starts, length⟩ := (ends_iff (List.cons_ne_nil _ _)).mp tail
    have here : sep b i (if lower then 'z' else 'Z') = true := sep_iff.mpr starts
    have letter : (sep b i 'Z' || sep b i 'z') = true := by
      cases lower with
      | false => exact Bool.or_eq_true_iff.mpr (.inl here)
      | true => exact Bool.or_eq_true_iff.mpr (.inr here)
    have ends : i + 1 = b.length := length
    rw [offsetSecs, letter, Bool.true_and, if_pos (decide_eq_true ends)]
    rfl
  | shift negative hour minute =>
    obtain ⟨starts, length⟩ := (ends_iff (List.cons_ne_nil _ _)).mp tail
    simp only [cons_prefix_iff, numeral_prefix_iff] at starts
    obtain ⟨here, hourHere, colon, minuteHere⟩ := starts
    simp only [List.length_cons, List.length_append, Numeral.size] at length
    have first := sep_eq.mp here
    have unlettered : (sep b i 'Z' || sep b i 'z') = false := by
      rw [sep, sep, first]
      cases negative <;> decide
    have signed : (sep b i '+' = !negative) ∧ sep b i '-' = negative := by
      rw [sep, sep, first]
      cases negative <;> decide
    have hours : num b (i + 1) (i + 3) = some hour.value := (num_iff (k := 2) (by decide)).mpr ⟨hour, hourHere, rfl⟩
    have minutes : num b (i + 4) (i + 6) = some minute.value := (num_iff (k := 2) (by decide)).mpr ⟨minute, minuteHere, rfl⟩
    have within : ¬(hour.value > 23 ∨ minute.value > 59) := by
      obtain ⟨one, other⟩ := ranged
      omega
    have ends : i + 6 = b.length := by omega
    simp only [offsetSecs, unlettered, Bool.false_and, Bool.false_eq_true, if_false, signed.1, signed.2, colon,
      decide_eq_true ends, hours, minutes, bind, Option.bind_some, if_neg within]
    cases negative <;> rfl

theorem offsetStart_sound (found : offsetStart b = some i) :
    ∃ fraction, b.drop 19 = ascii (Stamp.fractionChars fraction) ++ b.drop i := by
  rw [offsetStart] at found
  split at found
  next dot =>
    obtain ⟨rest, whole⟩ := sep_iff.mp dot
    have later : b.drop 20 = rest := by
      have next := @List.drop_drop _ 1 19 b
      rw [← whole] at next
      exact next.symm
    obtain ⟨digits, spelled, decimal⟩ := @ascii_of_decimal (rest.takeWhile isDigit)
      (List.all_eq_true.mpr fun x member => List.mem_takeWhile_imp member)
    have size : digits.length = (rest.takeWhile isDigit).length := by
      rw [← spelled]
      exact (List.length_map _).symm
    rw [later] at found
    dsimp only at found
    split at found
    · cases found
    next nonempty =>
      cases found
      obtain ⟨more, counted⟩ := Nat.exists_eq_succ_of_ne_zero nonempty
      refine ⟨some ⟨more, digits, size.trans counted, decimal⟩, ?_⟩
      have cut : b.drop (20 + (rest.takeWhile isDigit).length) = rest.dropWhile isDigit := by
        rw [← List.drop_drop, later]
        nth_rewrite 2 [← List.takeWhile_append_dropWhile (p := isDigit) (l := rest)]
        exact List.drop_left
      rw [cut, ← whole]
      change byte '.' :: rest = byte '.' :: (ascii digits ++ _)
      rw [spelled, List.takeWhile_append_dropWhile]
  next =>
    cases found
    exact ⟨none, rfl⟩

/-- An offset is told from a fraction, and from one more digit of it. -/
theorem offset_first (o : Offset) : ∃ c rest, o.chars = c :: rest ∧ isDigit (byte c) = false ∧ byte '.' ≠ byte c := by
  cases o with
  | zulu lower =>
    refine ⟨_, _, rfl, ?_⟩
    cases lower <;> decide
  | shift negative hour minute =>
    refine ⟨_, _, rfl, ?_⟩
    cases negative <;> decide

theorem offsetStart_complete {fraction : Option ((more : Nat) × Numeral (more + 1))} {o : Offset}
    (tail : b.drop 19 = ascii (Stamp.fractionChars fraction ++ o.chars)) :
    ∃ i, offsetStart b = some i ∧ b.drop i = ascii o.chars := by
  obtain ⟨c, rest, spelled, undecimal, other⟩ := offset_first o
  cases fraction with
  | none =>
    have first : b[19]? = some (byte c) := by
      rw [← List.head?_drop, tail, spelled]
      rfl
    have plain : sep b 19 '.' = false := by
      rw [← Bool.not_eq_true, sep_eq, first, Option.some.injEq]
      exact other.symm
    exact ⟨19, by rw [offsetStart, plain]; rfl, tail⟩
  | some fraction =>
    obtain ⟨more, digits⟩ := fraction
    have dot : sep b 19 '.' = true := by
      rw [sep_eq, ← List.head?_drop, tail]
      rfl
    have later : b.drop 20 = ascii digits.digits ++ ascii o.chars := by
      have next := @List.drop_drop _ 1 19 b
      rw [tail] at next
      rw [← next]
      exact List.map_append
    have size : (ascii digits.digits).length = more + 1 := (List.length_map _).trans digits.size
    have stop : (ascii o.chars).takeWhile isDigit = [] := by
      rw [spelled]
      exact List.takeWhile_cons_of_neg (by rw [undecimal]; exact Bool.false_ne_true)
    have run : (b.drop 20).takeWhile isDigit = ascii digits.digits := by
      rw [later, List.takeWhile_append_of_pos (List.all_eq_true.mp (ascii_value digits.decimal).1), stop, List.append_nil]
    refine ⟨20 + (more + 1), ?_, ?_⟩
    · rw [offsetStart, dot, if_pos rfl, run, size]
      rfl
    · rw [← List.drop_drop, later]
      exact List.drop_left' size

end Scan

section Text
variable {s : String} {chars : List Char} {t : Stamp}

theorem bytes_ascii (plain : ∀ c ∈ chars, c.toNat < 128) : bytes (String.ofList chars) = ascii chars := by
  have every : ∀ n < 128, String.utf8EncodeChar (Char.ofNat n) = [byte (Char.ofNat n)] := by decide +kernel
  rw [bytes, String.toList_ofList]
  induction chars with
  | nil => rfl
  | cons c rest ih =>
    obtain ⟨first, others⟩ := List.forall_mem_cons.mp plain
    have single := every c.toNat first
    rw [Char.ofNat_toNat] at single
    rw [List.flatMap_cons, single, ih others]
    rfl

theorem bytes_inj {s' : String} (same : bytes s = bytes s') : s = s' := by
  apply String.toByteArray_inj.mp
  rw [← String.utf8Encode_toList, ← String.utf8Encode_toList]
  exact congrArg List.toByteArray same

theorem stamp_plain (t : Stamp) : ∀ c ∈ t.chars, c.toNat < 128 := by
  have numeral {k : Nat} (n : Numeral k) : ∀ c ∈ n.digits, c.toNat < 128 := fun c member => digit_ascii (n.decimal c member)
  have colon : ':'.toNat < 128 := by decide
  have dash : '-'.toNat < 128 := by decide
  have letter : (if t.lower then 't' else 'T').toNat < 128 := by split <;> decide
  have fraction : ∀ c ∈ Stamp.fractionChars t.fraction, c.toNat < 128 := by
    cases t.fraction with
    | none => exact List.forall_mem_nil _
    | some fraction => exact List.forall_mem_cons.mpr ⟨by decide, numeral fraction.2⟩
  have offset : ∀ c ∈ t.offset.chars, c.toNat < 128 := by
    cases t.offset with
    | zulu lower => cases lower <;> exact List.forall_mem_singleton.mpr (by decide)
    | shift negative hour minute =>
      have sign : (if negative then '-' else '+').toNat < 128 := by split <;> decide
      simp only [Offset.chars, List.forall_mem_cons, List.forall_mem_append]
      exact ⟨sign, numeral hour, colon, numeral minute⟩
  simp only [Stamp.chars, Stamp.front, List.forall_mem_append, List.forall_mem_cons]
  exact ⟨⟨numeral t.year, dash, numeral t.month, dash, numeral t.day, letter, numeral t.hour, colon, numeral t.minute, colon,
    numeral t.second⟩, fraction, offset⟩

/-- A text is a date-time exactly if its bytes are. -/
theorem bytes_iff : bytes s = ascii t.chars ↔ s.toList = t.chars := by
  rw [← bytes_ascii (stamp_plain t)]
  constructor
  · intro same
    rw [bytes_inj same, String.toList_ofList]
  · intro same
    rw [← same, String.ofList_toList]

end Text
end LetsEmbed.Siwe
