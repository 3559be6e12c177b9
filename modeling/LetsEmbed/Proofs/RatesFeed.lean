import LetsEmbed.Proofs.TextDigits
import LetsEmbed.Rates

/-! What is accepted as the price of a feed. The answer of a call is five words of
64 hexadecimal digits, of which the second is the price and the fourth its time. -/

namespace LetsEmbed.Rates
open Config Systems Text

def wordValue (word : List Char) : Nat := Radix.value 16 (word.map (digitOf 16))

/-- The words of an answer, from zero. -/
def word (digits : List Char) (i : Nat) : List Char := (digits.drop (i * 64)).take 64

/-- Numbers as the words of an answer, in either case. -/
def abiEncode (upper : Bool) (words : List Nat) : String :=
  let letter digit := if upper then (Nat.digitChar digit).toUpper else Nat.digitChar digit
  String.ofList ('0' :: 'x' :: words.flatMap fun value => (Radix.spelled 16 64 value).map letter)

def Recent (updatedAt now : Nat) : Prop := updatedAt ≥ now ∨ now - updatedAt ≤ chainlinkMaxStaleSecs

/-- `word_to_u128` where it could panic. -/
def wordToU128Checked (word : List Char) : Option (Except String Nat) := do
  let (high, low) ← splitAt 32 word
  if high.any (· != '0') then some (.error "word exceeds u128")
  else some ((fromStrRadix 128 16 (String.ofList low)).elim (.error "bad hex word") .ok)

/-- `decode_latest_round_data` where it could panic: at a slice, at the first
character of a word. -/
def decodeChecked (resultHex : String) (now : Nat) : Option (Except String Nat) :=
  match stripPrefix "0x" resultHex with
  | none => some (.error "result not 0x-prefixed")
  | some hex =>
    if byteLength hex ≠ 320 ∨ hex.toList.all isHexDigit = false then some (.error "result is not 0x + 320 hex chars")
    else do
      let answerWord ← slice 64 128 hex.toList
      let first ← answerWord.head?
      match toDigit 16 first with
      | none => some (.error "bad answer word")
      | some top =>
        if top ≥ 8 then some (.error "chainlink answer is negative")
        else
          match ← wordToU128Checked answerWord with
          | .error e => some (.error e)
          | .ok answer =>
            if answer = 0 then some (.error "chainlink answer is zero")
            else do
              let updatedWord ← slice 192 256 hex.toList
              match ← wordToU128Checked updatedWord with
              | .error e => some (.error e)
              | .ok updatedAt =>
                if updatedAt ≥ 2 ^ 64 then some (.error "updatedAt exceeds u64")
                else if now - updatedAt > chainlinkMaxStaleSecs then some (.error "chainlink price is stale")
                else some (.ok answer)

variable {digits : List Char} {i n now price : Nat}

theorem splitAt_digits (spelled : Digits 16 digits) (inside : n ≤ digits.length) :
    splitAt n digits = some (digits.take n, digits.drop n) := by
  induction digits generalizing n with
  | nil =>
    rw [Nat.le_zero.mp inside]
    rfl
  | cons c rest ih =>
    cases n with
    | zero => rfl
    | succ n =>
      obtain ⟨first, others⟩ := List.forall_mem_cons.mp spelled
      have size : c.utf8Size = 1 := Char.utf8Size_eq_one_iff.mpr (Nat.le_of_lt_succ (digit_ascii first))
      rw [splitAt, size, if_pos (by omega), Nat.add_sub_cancel, ih others (Nat.le_of_succ_le_succ inside)]
      rfl

theorem wordToU128_eq (spelled : Digits 16 digits) (size : digits.length = 64) : wordToU128 digits =
    if wordValue digits < 2 ^ 128 then .ok (wordValue digits) else .error "word exceeds u128" := by
  have low : Digits 16 (digits.drop 32) := fun c member => spelled c (List.mem_of_mem_drop member)
  have high : Digits 16 (digits.take 32) := fun c member => spelled c (List.mem_of_mem_take member)
  have rest : (digits.drop 32).length = 32 := by rw [List.length_drop, size]
  have split : wordValue digits = wordValue (digits.take 32) * 2 ^ 128 + wordValue (digits.drop 32) := by
    have whole := @Radix.value_append 16 ((digits.take 32).map (digitOf 16)) ((digits.drop 32).map (digitOf 16))
    rw [← List.map_append, List.take_append_drop, List.length_map, rest] at whole
    rw [wordValue, whole]
    rfl
  have below : wordValue (digits.drop 32) < 2 ^ 128 := by
    have bound := Radix.value_lt (by decide) (digits_lt low)
    rw [List.length_map, rest] at bound
    exact bound
  have zeros : wordValue digits < 2 ^ 128 ↔ ∀ c ∈ digits.take 32, c = '0' := by
    rw [← value_eq_zero high, split]
    change _ ↔ wordValue (digits.take 32) = 0
    omega
  rw [wordToU128]
  by_cases narrow : wordValue digits < 2 ^ 128
  · have led : (digits.take 32).any (· != '0') = false := by
      rw [List.any_eq_false]
      intro c member
      simp [zeros.mp narrow c member]
    have same : wordValue (digits.drop 32) = wordValue digits := by
      have above := (value_eq_zero high).mpr (zeros.mp narrow)
      change wordValue (digits.take 32) = 0 at above
      rw [split, above, Nat.zero_mul, Nat.zero_add]
    have nonempty : digits.drop 32 ≠ [] := List.ne_nil_of_length_pos (by omega)
    have read : fromStrRadix 128 16 (String.ofList (digits.drop 32)) = some (wordValue digits) := by
      rw [fromStrRadix_eq low nonempty (by decide)]
      change (some (wordValue (digits.drop 32))).filter _ = _
      rw [same]
      exact Option.filter_some_pos (decide_eq_true narrow)
    rw [led, if_neg Bool.false_ne_true, read, if_pos narrow]
  · have led : (digits.take 32).any (· != '0') = true := by
      rw [zeros] at narrow
      simpa using narrow
    rw [if_pos led, if_neg narrow]

theorem wordToU128_checked (spelled : Digits 16 digits) (size : digits.length = 64) :
    wordToU128Checked digits = some (wordToU128 digits) := by
  rw [wordToU128Checked, splitAt_digits spelled (by omega), wordToU128]
  simp only [bind, Option.bind_some]
  split
  · rfl
  · cases fromStrRadix 128 16 (String.ofList (digits.drop 32)) <;> rfl

section Answer
variable (spelled : Digits 16 digits) (size : digits.length = 320)
include spelled size

theorem answer_format : ¬(digits.length ≠ 320 ∨ digits.all isHexDigit = false) := by
  rw [not_or, not_not, Bool.not_eq_false, List.all_eq_true]
  exact ⟨size, spelled⟩

theorem word_digits (inside : i < 5) : Digits 16 (word digits i) ∧ (word digits i).length = 64 := by
  refine ⟨fun c member => spelled c (List.mem_of_mem_drop (List.mem_of_mem_take member)), ?_⟩
  rw [word, List.length_take, List.length_drop, size]
  omega

theorem slice_word (inside : i < 5) : slice (i * 64) (i * 64 + 64) digits = some (word digits i) := by
  have rest : Digits 16 (digits.drop (i * 64)) := fun c member => spelled c (List.mem_of_mem_drop member)
  have room : 64 ≤ (digits.drop (i * 64)).length := by
    rw [List.length_drop, size]
    omega
  rw [slice, if_pos (Nat.le_add_right ..), splitAt_digits spelled (by omega), Option.bind_some, Nat.add_sub_cancel_left]
  dsimp only
  rw [splitAt_digits rest room]
  rfl

theorem top_digit : ∃ top, (word digits 1).head?.bind (toDigit 16) = some top ∧
    (word digits 1).head?.isSome = true ∧ (8 ≤ top → 2 ^ 128 ≤ wordValue (word digits 1)) := by
  obtain ⟨answer, length⟩ := word_digits spelled size (i := 1) (by decide)
  cases split : word digits 1 with
  | nil =>
    rw [split] at length
    cases length
  | cons c rest =>
    rw [split] at answer length
    obtain ⟨top, read⟩ := Option.isSome_iff_exists.mp (answer c List.mem_cons_self)
    refine ⟨top, read, rfl, fun large => ?_⟩
    rw [List.length_cons, Nat.succ_inj] at length
    rw [wordValue, List.map_cons, Radix.value_cons, List.length_map, length, digitOf, read, Option.getD_some]
    have shifted : 8 * 16 ^ 63 ≤ top * 16 ^ 63 := Nat.mul_le_mul_right _ large
    have wide : 2 ^ 128 ≤ 8 * 16 ^ 63 := by decide
    omega

theorem decode_digits {s : String} (begins : stripPrefix "0x" s = some (String.ofList digits)) :
    decodeLatestRoundData s now = .ok price ↔ wordValue (word digits 1) = price ∧ 0 < price ∧ price < 2 ^ 128 ∧
      wordValue (word digits 3) < 2 ^ 64 ∧ Recent (wordValue (word digits 3)) now := by
  obtain ⟨answerSpelled, answerSize⟩ := @word_digits digits 1 spelled size (by decide)
  obtain ⟨updatedSpelled, updatedSize⟩ := @word_digits digits 3 spelled size (by decide)
  obtain ⟨top, read, _, large⟩ := top_digit spelled size
  have answer := wordToU128_eq answerSpelled answerSize
  have updated := wordToU128_eq updatedSpelled updatedSize
  have format := answer_format spelled size
  generalize wordValue (word digits 1) = a at *
  generalize wordValue (word digits 3) = u at *
  unfold word at read answer updated
  rw [decodeLatestRoundData, begins]
  simp only [String.toList_ofList, if_neg format, read, answer, updated]
  have failed (e : String) : Except.error e ≠ Except.ok price := fun impossible => by cases impossible
  by_cases narrow : a < 2 ^ 128
  · have nonneg : ¬top ≥ 8 := fun negative => Nat.not_le.mpr narrow (large negative)
    simp only [if_neg nonneg, if_pos narrow, bind, Except.bind]
    by_cases zero : a = 0
    · rw [if_pos zero]
      exact iff_of_false (failed _) (by omega)
    rw [if_neg zero]
    by_cases time : u < 2 ^ 64
    · have wide : u < 2 ^ 128 := Nat.lt_of_lt_of_le time (by decide)
      simp only [if_pos wide, if_neg (Nat.not_le.mpr time)]
      split
      next stale => exact iff_of_false (failed _) (by unfold Recent; omega)
      next fresh =>
        rw [Except.ok.injEq]
        unfold Recent
        omega
    · refine iff_of_false ?_ (by omega)
      by_cases wide : u < 2 ^ 128
      · simp only [if_pos wide, if_pos (Nat.not_lt.mp time)]
        exact failed _
      · simp only [if_neg wide]
        exact failed _
  · refine iff_of_false ?_ (by omega)
    simp only [if_neg narrow, bind, Except.bind]
    split <;> exact failed _

theorem decode_digits_checked {s : String} (begins : stripPrefix "0x" s = some (String.ofList digits)) :
    decodeChecked s now = some (decodeLatestRoundData s now) := by
  obtain ⟨answerSpelled, answerSize⟩ := @word_digits digits 1 spelled size (by decide)
  obtain ⟨updatedSpelled, updatedSize⟩ := @word_digits digits 3 spelled size (by decide)
  obtain ⟨top, read, _, _⟩ := top_digit spelled size
  obtain ⟨first, led, digit⟩ := Option.bind_eq_some_iff.mp read
  have answer := wordToU128_checked answerSpelled answerSize
  have updated := wordToU128_checked updatedSpelled updatedSize
  have second := @slice_word digits 1 spelled size (by decide)
  have fourth := @slice_word digits 3 spelled size (by decide)
  have format := answer_format spelled size
  have bytes : ¬(byteLength (String.ofList digits) ≠ 320 ∨ digits.all isHexDigit = false) := by
    rw [byteLength_digits spelled, size]
    exact not_or.mpr ⟨fun other => other rfl, fun bad => format (.inr bad)⟩
  rw [decodeChecked, decodeLatestRoundData, begins]
  unfold word at *
  simp only [Nat.one_mul, Nat.reduceMul, Nat.reduceAdd] at *
  simp only [String.toList_ofList, if_neg format, if_neg bytes, second, fourth, led, digit, answer, updated, bind,
    Option.bind_some]
  split
  · rfl
  cases wordToU128 ((digits.drop 64).take 64) with
  | error => rfl
  | ok answer =>
    simp only [Except.bind]
    split
    · rfl
    cases wordToU128 ((digits.drop 192).take 64) with
    | error => rfl
    | ok updatedAt =>
      dsimp only
      split
      · rfl
      · split <;> rfl

end Answer

/-- What an answer has to look like to be read at all. -/
def Formed (s : String) (digits : List Char) : Prop :=
  s.toList = '0' :: 'x' :: digits ∧ digits.length = 320 ∧ ∀ c ∈ digits, isHexDigit c = true

theorem formed_iff {s : String} : Formed s digits ↔ stripPrefix "0x" s = some (String.ofList digits) ∧
    digits.length = 320 ∧ ∀ c ∈ digits, isHexDigit c = true := by
  simp only [stripPrefix_eq_some, String.toList_ofList]
  rfl

theorem decode_unformed {s : String} (unformed : ∀ digits, ¬Formed s digits) :
    (∀ price, decodeLatestRoundData s now ≠ .ok price) ∧ decodeChecked s now = some (decodeLatestRoundData s now) := by
  have failed (e : String) (price : Nat) : Except.error e ≠ Except.ok price := fun impossible => by cases impossible
  rw [decodeLatestRoundData, decodeChecked]
  cases begins : stripPrefix "0x" s with
  | none => exact ⟨failed _, rfl⟩
  | some hex =>
    have other : ¬(hex.toList.length = 320 ∧ ∀ c ∈ hex.toList, isHexDigit c = true) := by
      intro ⟨size, spelled⟩
      exact unformed hex.toList (formed_iff.mpr ⟨by rw [begins, String.ofList_toList], size, spelled⟩)
    have chars : hex.toList.length ≠ 320 ∨ hex.toList.all isHexDigit = false := by
      rw [← Bool.not_eq_true, List.all_eq_true, ← not_and_or]
      exact other
    have bytes : byteLength hex ≠ 320 ∨ hex.toList.all isHexDigit = false := by
      cases spelled : hex.toList.all isHexDigit with
      | false => exact .inr rfl
      | true =>
        have ascii := byteLength_digits (List.all_eq_true.mp spelled)
        rw [String.ofList_toList] at ascii
        exact .inl fun size => other ⟨ascii.symm.trans size, List.all_eq_true.mp spelled⟩
    simp only [if_pos chars, if_pos bytes]
    exact ⟨failed _, trivial⟩

theorem letter_digit (upper : Bool) : ∀ digit < 16,
    toDigit 16 (if upper then (Nat.digitChar digit).toUpper else Nat.digitChar digit) = some digit := by
  cases upper <;> decide +kernel

theorem word_flatMap {spell : Nat → List Char} (size : ∀ value, (spell value).length = 64) {words : List Nat}
    (inside : i < words.length) : word (words.flatMap spell) i = spell words[i] := by
  induction words generalizing i with
  | nil => cases inside
  | cons value rest ih =>
    cases i with
    | zero =>
      rw [word, Nat.zero_mul, List.drop_zero, List.flatMap_cons]
      exact List.take_left' (size value)
    | succ i =>
      rw [word, Nat.succ_mul, Nat.add_comm, ← List.drop_drop, List.flatMap_cons, List.drop_left' (size value)]
      exact ih (Nat.lt_of_succ_lt_succ inside)

theorem abiEncode_formed (upper : Bool) (roundId answer startedAt updatedAt answeredIn : Nat) :
    ∃ digits, Formed (abiEncode upper [roundId, answer, startedAt, updatedAt, answeredIn]) digits ∧
      wordValue (word digits 1) = answer % 2 ^ 256 ∧ wordValue (word digits 3) = updatedAt % 2 ^ 256 := by
  let spell (value : Nat) : List Char :=
    (Radix.spelled 16 64 value).map fun digit => if upper then (Nat.digitChar digit).toUpper else Nat.digitChar digit
  have size (value : Nat) : (spell value).length = 64 := by rw [List.length_map, Radix.length_spelled]
  have value (n : Nat) : wordValue (spell n) = n % 2 ^ 256 := by
    have read : (spell n).map (digitOf 16) = Radix.spelled 16 64 n := by
      rw [List.map_map]
      refine (List.map_congr_left fun digit spelled => ?_).trans (List.map_id _)
      have small : digit < 16 := Radix.spelled_lt (by decide) digit spelled
      rw [Function.comp_apply, digitOf, letter_digit upper digit small]
      rfl
    have width : 16 ^ 64 = 2 ^ 256 := by decide
    rw [wordValue, read, Radix.value_spelled, width]
  refine ⟨[roundId, answer, startedAt, updatedAt, answeredIn].flatMap spell, ⟨?_, ?_, ?_⟩, ?_, ?_⟩
  · exact String.toList_ofList
  · simp only [List.flatMap_cons, List.flatMap_nil, List.length_append, size, List.length_nil]
  · intro c member
    obtain ⟨n, _, inside⟩ := List.mem_flatMap.mp member
    obtain ⟨digit, spelled, rfl⟩ := List.mem_map.mp inside
    rw [isHexDigit, letter_digit upper digit (Radix.spelled_lt (by decide) digit spelled)]
    rfl
  · rw [word_flatMap size (by simp)]
    exact value answer
  · rw [word_flatMap size (by simp)]
    exact value updatedAt

/-- A price is read exactly from a fresh positive answer, in which it is the second
word; nothing that is not an answer makes the reading panic. -/
theorem decodeLatestRoundData_exact (s : String) (now : Nat) :
    decodeChecked s now = some (decodeLatestRoundData s now) ∧
      (∀ price, decodeLatestRoundData s now = .ok price ↔ ∃ digits, Formed s digits ∧
        wordValue (word digits 1) = price ∧ 0 < price ∧ price < 2 ^ 128 ∧
        wordValue (word digits 3) < 2 ^ 64 ∧ Recent (wordValue (word digits 3)) now) ∧
      ∀ upper roundId answer startedAt updatedAt answeredIn, s = abiEncode upper [roundId, answer, startedAt, updatedAt, answeredIn] →
        0 < answer → answer < 2 ^ 128 → updatedAt < 2 ^ 64 → Recent updatedAt now → decodeLatestRoundData s now = .ok answer := by
  have accepted (price : Nat) : decodeLatestRoundData s now = .ok price ↔ ∃ digits, Formed s digits ∧
      wordValue (word digits 1) = price ∧ 0 < price ∧ price < 2 ^ 128 ∧
      wordValue (word digits 3) < 2 ^ 64 ∧ Recent (wordValue (word digits 3)) now := by
    constructor
    · intro decoded
      by_cases formed : ∃ digits, Formed s digits
      · obtain ⟨digits, formed⟩ := formed
        obtain ⟨begins, size, spelled⟩ := formed_iff.mp formed
        exact ⟨digits, formed, (decode_digits spelled size begins).mp decoded⟩
      · exact absurd decoded ((decode_unformed fun digits found => formed ⟨digits, found⟩).1 price)
    · intro ⟨digits, formed, rest⟩
      obtain ⟨begins, size, spelled⟩ := formed_iff.mp formed
      exact (decode_digits spelled size begins).mpr rest
  refine ⟨?_, accepted, ?_⟩
  · by_cases formed : ∃ digits, Formed s digits
    · obtain ⟨digits, formed⟩ := formed
      obtain ⟨begins, size, spelled⟩ := formed_iff.mp formed
      exact decode_digits_checked spelled size begins
    · exact (decode_unformed fun digits found => formed ⟨digits, found⟩).2
  · intro upper roundId answer startedAt updatedAt answeredIn same positive narrow time recent
    obtain ⟨digits, formed, price, updated⟩ := abiEncode_formed upper roundId answer startedAt updatedAt answeredIn
    rw [Nat.mod_eq_of_lt (Nat.lt_trans narrow (by decide))] at price
    rw [Nat.mod_eq_of_lt (Nat.lt_trans time (by decide))] at updated
    refine (accepted answer).mpr ⟨digits, same ▸ formed, price, positive, narrow, ?_⟩
    rw [updated]
    exact ⟨time, recent⟩

theorem decodeLatestRoundData_exact_fresh :
    decodeLatestRoundData (abiEncode true [1, 300_000_000_000, 2, 1_700_000_000, 1]) 1_700_086_400 = .ok 300_000_000_000 :=
  (decodeLatestRoundData_exact _ 1_700_086_400).2.2 true 1 300_000_000_000 2 1_700_000_000 1 rfl (by decide) (by decide)
    (by decide) (.inr (by decide))

end LetsEmbed.Rates
