import Mathlib.Algebra.Order.Ring.Int
import Mathlib.Data.List.Basic
import Mathlib.Data.List.TakeWhile

/-! The string functions of the source's standard library that both workers
use. Strings are kept whole; positions are bytes where the source slices. -/

namespace LetsEmbed.Text

def stripPrefix (start s : String) : Option String := (s.toList.dropPrefix? start.toList).map String.ofList

def stripSuffix (ending s : String) : Option String :=
  (s.toList.reverse.dropPrefix? ending.toList.reverse).map fun chars => String.ofList chars.reverse

def startsWith (s start : String) : Bool := start.toList.isPrefixOf s.toList

/-- `str::split` at a character: never empty. -/
def split (separator : Char) (s : String) : List String := (s.toList.splitOn separator).map String.ofList

/-- `str::split_once` at a character. -/
def splitOnce (separator : Char) (s : String) : Option (String × String) :=
  match s.toList.dropWhile (· != separator) with
  | [] => none
  | _ :: rest => some (String.ofList (s.toList.takeWhile (· != separator)), String.ofList rest)

/-- `str::rsplit_once` at a character. -/
def rsplitOnce (separator : Char) (s : String) : Option (String × String) :=
  match s.toList.reverse.dropWhile (· != separator) with
  | [] => none
  | _ :: front =>
    some (String.ofList front.reverse, String.ofList (s.toList.reverse.takeWhile (· != separator)).reverse)

def endsWith (s ending : String) : Bool := ending.toList.isSuffixOf s.toList

/-- The Unicode `White_Space` property. -/
def isWhitespace (c : Char) : Bool :=
  let n := c.toNat
  (9 ≤ n && n ≤ 13) || n == 0x20 || n == 0x85 || n == 0xA0 || n == 0x1680 || (0x2000 ≤ n && n ≤ 0x200A) ||
    n == 0x2028 || n == 0x2029 || n == 0x202F || n == 0x205F || n == 0x3000

def trim (s : String) : String :=
  String.ofList ((s.toList.dropWhile isWhitespace).reverse.dropWhile isWhitespace).reverse

def toDigit (radix : Nat) (c : Char) : Option Nat :=
  let value :=
    if '0' ≤ c ∧ c ≤ '9' then some (c.toNat - '0'.toNat)
    else if 'a' ≤ c ∧ c ≤ 'z' then some (c.toNat - 'a'.toNat + 10)
    else if 'A' ≤ c ∧ c ≤ 'Z' then some (c.toNat - 'A'.toNat + 10)
    else none
  value.filter (· < radix)

def digitsValue (radix : Nat) (digits : List Char) : Option Nat :=
  digits.foldlM (fun value c => (toDigit radix c).map (value * radix + ·)) 0

/-- `from_str_radix` of an unsigned type of this width: a leading plus sign is
allowed, no digits or an overflow are not. -/
def fromStrRadix (bits radix : Nat) (s : String) : Option Nat :=
  let digits := match s.toList with
    | '+' :: rest => rest
    | digits => digits
  if digits.isEmpty then none else (digitsValue radix digits).filter (· < 2 ^ bits)

/-- `u8::is_ascii_hexdigit` and the lowercase-only test the source spells out. -/
def isHexDigit (c : Char) : Bool := (toDigit 16 c).isSome
def isLowerHexDigit (c : Char) : Bool := ('0' ≤ c && c ≤ '9') || ('a' ≤ c && c ≤ 'f')

def bytes (s : String) : List UInt8 := s.toList.flatMap String.utf8EncodeChar

def byteLength (s : String) : Nat := (s.toList.map Char.utf8Size).sum

/-- `str::split_at`: nothing where the source panics, inside a character or behind
the end. -/
def splitAt : Nat → List Char → Option (List Char × List Char)
  | 0, chars => some ([], chars)
  | _ + 1, [] => none
  | n + 1, c :: rest =>
    if c.utf8Size ≤ n + 1 then (splitAt (n + 1 - c.utf8Size) rest).map fun (front, back) => (c :: front, back) else none

/-- `&s[start..stop]`, likewise. -/
def slice (start stop : Nat) (chars : List Char) : Option (List Char) :=
  if start ≤ stop then ((splitAt start chars).bind fun (_, rest) => splitAt (stop - start) rest).map (·.1) else none

/-- What an UTF-8 lead byte announces: how many bytes follow, the range of the
first of them, and the bits it contributes. -/
def leadByte (b : UInt8) : Option (Nat × UInt8 × UInt8 × Nat) :=
  if b < 0x80 then some (0, 0x80, 0xBF, b.toNat)
  else if 0xC2 ≤ b ∧ b ≤ 0xDF then some (1, 0x80, 0xBF, b.toNat - 0xC0)
  else if b = 0xE0 then some (2, 0xA0, 0xBF, 0)
  else if b = 0xED then some (2, 0x80, 0x9F, 0xD)
  else if 0xE1 ≤ b ∧ b ≤ 0xEF then some (2, 0x80, 0xBF, b.toNat - 0xE0)
  else if b = 0xF0 then some (3, 0x90, 0xBF, 0)
  else if 0xF1 ≤ b ∧ b ≤ 0xF3 then some (3, 0x80, 0xBF, b.toNat - 0xF0)
  else if b = 0xF4 then some (3, 0x80, 0x8F, 4)
  else none

/-- Read the continuation bytes of one character: its code point, or the bytes
left where the sequence breaks off. -/
def continuation : Nat → UInt8 → UInt8 → Nat → List UInt8 → Except (List UInt8) (Nat × List UInt8)
  | 0, _, _, code, rest => .ok (code, rest)
  | _ + 1, _, _, _, [] => .error []
  | more + 1, low, high, code, b :: rest =>
    if low ≤ b ∧ b ≤ high then continuation more 0x80 0xBF (code * 64 + (b.toNat - 0x80)) rest
    else .error (b :: rest)

/-- `String::from_utf8_lossy`: every maximal broken sequence is one U+FFFD. The
fuel is the number of bytes left. -/
def lossyChars : Nat → List UInt8 → List Char
  | 0, _ | _, [] => []
  | fuel + 1, b :: rest =>
    match leadByte b with
    | none => '\uFFFD' :: lossyChars fuel rest
    | some (more, low, high, code) =>
      match continuation more low high code rest with
      | .ok (code, rest) => Char.ofNat code :: lossyChars fuel rest
      | .error rest => '\uFFFD' :: lossyChars fuel rest

def fromUtf8Lossy (bytes : List UInt8) : String := String.ofList (lossyChars bytes.length bytes)

example : fromUtf8Lossy [0x61, 0xE2, 0x82, 0xAC, 0xE2, 0x82, 0x62, 0xFF] = "a€\uFFFDb\uFFFD" := by decide

theorem stripPrefix_eq_some {start s rest : String} :
    stripPrefix start s = some rest ↔ s.toList = start.toList ++ rest.toList := by
  rw [stripPrefix, Option.map_eq_some_iff]
  constructor
  · rintro ⟨chars, found, rfl⟩
    obtain ⟨taken, whole, same⟩ := List.dropPrefix?_eq_some_iff.mp found
    rw [whole, eq_of_beq same, String.toList_ofList]
  · intro whole
    exact ⟨rest.toList, List.dropPrefix?_eq_some_iff.mpr ⟨_, whole, beq_self_eq_true _⟩, String.ofList_toList⟩

theorem stripSuffix_eq_some {ending s rest : String} :
    stripSuffix ending s = some rest ↔ s.toList = rest.toList ++ ending.toList := by
  rw [stripSuffix, Option.map_eq_some_iff]
  constructor
  · intro ⟨chars, found, same⟩
    obtain ⟨taken, whole, equal⟩ := List.dropPrefix?_eq_some_iff.mp found
    rw [← same, String.toList_ofList, ← List.reverse_reverse s.toList, whole, eq_of_beq equal, List.reverse_append,
      List.reverse_reverse]
  · intro whole
    refine ⟨rest.toList.reverse, List.dropPrefix?_eq_some_iff.mpr ⟨_, ?_, beq_self_eq_true _⟩, ?_⟩
    · rw [whole, List.reverse_append]
    · rw [List.reverse_reverse, String.ofList_toList]

theorem split_intercalate {c : Char} {separator : String} {parts : List String} (single : separator.toList = [c])
    (clean : ∀ part ∈ parts, c ∉ part.toList) (nonempty : parts ≠ []) : split c (separator.intercalate parts) = parts := by
  have free : ∀ chars ∈ parts.map String.toList, c ∉ chars := List.forall_mem_map.mpr clean
  rw [split, String.toList_intercalate, single, List.splitOn_intercalate c free (by simpa using nonempty), List.map_map]
  exact List.map_id'' (fun _ => String.ofList_toList) _

theorem splitOnce_eq_some {c : Char} {s front rest : String} : splitOnce c s = some (front, rest) ↔
    s.toList = front.toList ++ c :: rest.toList ∧ c ∉ front.toList := by
  rw [splitOnce]
  constructor
  · intro found
    split at found
    · cases found
    next x chars tail =>
      cases found
      have stop : x = c := by
        have head := List.head_dropWhile_not (· != c) (by rw [tail]; exact List.cons_ne_nil _ _)
        simpa [tail] using head
      rw [String.toList_ofList, String.toList_ofList]
      constructor
      · rw [← stop, ← tail, stop, List.takeWhile_append_dropWhile]
      · intro member
        simpa using List.mem_takeWhile_imp member
  · rintro ⟨whole, free⟩
    have passed : ∀ x ∈ front.toList, (x != c) = true := by
      intro x member
      exact bne_iff_ne.mpr fun same => free (same ▸ member)
    rw [whole, List.dropWhile_append_of_pos passed, List.takeWhile_append_of_pos passed,
      List.dropWhile_cons_of_neg (by simp), List.takeWhile_cons_of_neg (by simp), List.append_nil]
    simp only [String.ofList_toList]

theorem rsplitOnce_eq_splitOnce {c : Char} {s : String} : rsplitOnce c s =
    (splitOnce c (String.ofList s.toList.reverse)).map fun parts =>
      (String.ofList parts.2.toList.reverse, String.ofList parts.1.toList.reverse) := by
  rw [rsplitOnce, splitOnce, String.toList_ofList]
  cases s.toList.reverse.dropWhile (· != c) with
  | nil => rfl
  | cons x front => simp only [Option.map_some, String.toList_ofList]

theorem rsplitOnce_eq_some {c : Char} {s front rest : String} : rsplitOnce c s = some (front, rest) ↔
    s.toList = front.toList ++ c :: rest.toList ∧ c ∉ rest.toList := by
  rw [rsplitOnce_eq_splitOnce, Option.map_eq_some_iff]
  constructor
  · rintro ⟨⟨late, early⟩, found, same⟩
    cases same
    obtain ⟨whole, free⟩ := splitOnce_eq_some.mp found
    rw [String.toList_ofList] at whole
    rw [String.toList_ofList, String.toList_ofList, List.mem_reverse]
    refine ⟨?_, free⟩
    rw [← List.reverse_reverse s.toList, whole, List.reverse_append, List.reverse_cons, List.append_assoc]
    rfl
  · rintro ⟨whole, free⟩
    refine ⟨(String.ofList rest.toList.reverse, String.ofList front.toList.reverse), splitOnce_eq_some.mpr ⟨?_, ?_⟩, ?_⟩
    · rw [whole, String.toList_ofList, String.toList_ofList, String.toList_ofList, List.reverse_append,
        List.reverse_cons, List.append_assoc]
      rfl
    · rwa [String.toList_ofList, List.mem_reverse]
    · simp only [String.toList_ofList, List.reverse_reverse, String.ofList_toList]

end LetsEmbed.Text
