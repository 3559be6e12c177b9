import Mathlib.Data.List.TakeWhile
import LetsEmbed.Gateway
import LetsEmbed.Proofs.TextUtf8

/-! The gateway's reading of a form field against the standard parser of the
format, which decodes names as it does values and works on bytes throughout. -/

namespace LetsEmbed.Gateway
open Text

section Standard

def unescape : List UInt8 → List UInt8
  | 0x25 :: high :: low :: rest =>
    match hexByte high, hexByte low with
    | some h, some l => (h * 16 + l) :: unescape rest
    | _, _ => 0x25 :: unescape (high :: low :: rest)
  | b :: rest => b :: unescape rest
  | [] => []

def plusToSpace (b : UInt8) : UInt8 := if b = 0x2B then 0x20 else b

def standardText (raw : List UInt8) : String := fromUtf8Lossy (unescape (raw.map plusToSpace))

def nameOf (pair : List UInt8) : List UInt8 := pair.takeWhile (· != 0x3D)

/-- Empty in a pair without an equals sign. -/
def valueOf (pair : List UInt8) : List UInt8 := (pair.dropWhile (· != 0x3D)).drop 1

def pairs (body : List UInt8) : List (List UInt8) := body.splitOn 0x26

def standardField (body : List UInt8) (key : String) : Option String :=
  (((pairs body).map fun pair => (standardText (nameOf pair), standardText (valueOf pair))).find? (·.1 = key)).map (·.2)

end Standard

/-- The fields that are metered. -/
inductive FormKey where
  | q
  | image

def FormKey.name : FormKey → String
  | .q => "q"
  | .image => "image"

namespace FormKey
variable (key : FormKey) (pair : List UInt8)

def names : Bool := standardText (nameOf pair) = key.name

/-- The pair has the name as it stands, and an equals sign. -/
def spells : Bool := pair.contains 0x3D && nameOf pair == bytes key.name

theorem name_ascii : ∀ b ∈ bytes key.name, b < 0x80 := by
  cases key <;> decide +kernel

theorem name_plain : percentDecodeBytes (bytes key.name) = bytes key.name := by
  cases key <;> decide +kernel

end FormKey

section Decoding

theorem hexByte_plus (b : UInt8) : hexByte (plusToSpace b) = hexByte b := by
  unfold plusToSpace
  split
  next plus =>
    rw [plus]
    decide
  · rfl

theorem unescape_plain {b : UInt8} {rest : List UInt8}
    (plain : ∀ high low more, b = 0x25 → rest = high :: low :: more → False) :
    unescape (b :: rest) = b :: unescape rest := by
  rw [unescape]
  exact plain

theorem unescape_escape {high low h l : UInt8} {rest : List UInt8} (left : hexByte high = some h)
    (right : hexByte low = some l) : unescape (0x25 :: high :: low :: rest) = (h * 16 + l) :: unescape rest := by
  rw [unescape, left, right]

theorem unescape_broken {high low : UInt8} {rest : List UInt8}
    (broken : ∀ h l, hexByte high = some h → hexByte low = some l → False) :
    unescape (0x25 :: high :: low :: rest) = 0x25 :: unescape (high :: low :: rest) := by
  rw [unescape]
  cases left : hexByte high with
  | none => rfl
  | some h =>
    cases right : hexByte low with
    | none => rfl
    | some l => exact (broken h l left right).elim

/-- The gateway's decoder of values is the standard one. -/
theorem percentDecodeBytes_eq (raw : List UInt8) : percentDecodeBytes raw = unescape (raw.map plusToSpace) := by
  fun_induction percentDecodeBytes raw with
  | case1 high low rest h l right left ih =>
    rw [ih, List.map_cons, List.map_cons, List.map_cons]
    exact (unescape_escape ((hexByte_plus high).trans left) ((hexByte_plus low).trans right)).symm
  | case2 high low rest broken ih =>
    rw [ih, List.map_cons, List.map_cons, List.map_cons]
    refine (unescape_broken fun h l left right => broken h l ?_ ?_).symm
    · exact (hexByte_plus high).symm.trans left
    · exact (hexByte_plus low).symm.trans right
  | case3 rest ih =>
    rw [ih, List.map_cons]
    exact (unescape_plain fun _ _ _ same => by cases same).symm
  | case4 b rest escape plus ih =>
    have kept : plusToSpace b = b := if_neg plus
    rw [ih, List.map_cons, kept]
    refine (unescape_plain fun high low more same split => ?_).symm
    cases rest with
    | nil => cases split
    | cons first rest =>
      cases rest with
      | nil => cases split
      | cons second rest => exact escape first second rest same rfl
  | case5 => rfl

theorem percentDecode_eq (s : String) : percentDecode s = standardText (bytes s) := by
  rw [percentDecode, standardText, percentDecodeBytes_eq]

end Decoding

section Splitting
variable {pair : List UInt8}

theorem split_lossy (body : List UInt8) : split '&' (fromUtf8Lossy body) = (pairs body).map fromUtf8Lossy := by
  have commute := @lossy_splitOn 0x26 body (by decide)
  rw [split, fromUtf8Lossy_eq, String.toList_ofList]
  change ((lossy body).splitOn (Char.ofNat (0x26 : UInt8).toNat)).map String.ofList = _
  rw [commute, List.map_map]
  rfl

theorem nameOf_append {name value : List UInt8} (clean : (0x3D : UInt8) ∉ name) :
    nameOf (name ++ 0x3D :: value) = name ∧ valueOf (name ++ 0x3D :: value) = value := by
  have all : ∀ b ∈ name, (b != 0x3D) = true := by
    intro b member
    rw [bne_iff_ne]
    rintro rfl
    exact clean member
  constructor
  · rw [nameOf, List.takeWhile_append_of_pos all]
    simp
  · rw [valueOf, List.dropWhile_append_of_pos all]
    simp

theorem splitOnce_lossy : splitOnce '=' (fromUtf8Lossy pair) =
    if pair.contains 0x3D then some (fromUtf8Lossy (nameOf pair), fromUtf8Lossy (valueOf pair)) else none := by
  have sign : Char.ofNat (0x3D : UInt8).toNat = '=' := rfl
  have ascii : (0x3D : UInt8) < 0x80 := by decide
  rw [splitOnce, fromUtf8Lossy_eq, String.toList_ofList]
  by_cases member : (0x3D : UInt8) ∈ pair
  · obtain ⟨name, value, rfl, clean⟩ := List.eq_append_cons_of_mem member
    have plain : '=' ∉ lossy name := sign ▸ mt (mem_of_mem_lossy ascii) clean
    have all : ∀ c ∈ lossy name, (c != '=') = true := by
      intro c member
      rw [bne_iff_ne]
      rintro rfl
      exact plain member
    rw [if_pos (List.contains_iff_mem.mpr member), (nameOf_append clean).1, (nameOf_append clean).2, lossy_append_ascii ascii,
      sign, List.dropWhile_append_of_pos all, List.takeWhile_append_of_pos all]
    simp [fromUtf8Lossy_eq]
  · have plain : '=' ∉ lossy pair := sign ▸ mt (mem_of_mem_lossy ascii) member
    have all : ∀ c ∈ lossy pair, (c != '=') = true := by
      intro c member
      rw [bne_iff_ne]
      rintro rfl
      exact plain member
    rw [if_neg (by simpa using member), List.dropWhile_eq_nil_iff.mpr all]

end Splitting

section Field
variable {body pair : List UInt8} {key : FormKey}

/-- The text with every broken sequence replaced. -/
def repaired (raw : List UInt8) : List UInt8 := bytes (fromUtf8Lossy raw)

theorem lossy_name : fromUtf8Lossy (nameOf pair) = key.name ↔ nameOf pair = bytes key.name := by
  have own : lossy (bytes key.name) = key.name.toList := lossy_encode _
  rw [← lossy_eq_ascii key.name_ascii, own, fromUtf8Lossy_eq]
  exact ⟨fun same => by rw [← same, String.toList_ofList], fun same => by rw [same, String.ofList_toList]⟩

theorem formField_eq : formField body key.name =
    ((pairs body).find? key.spells).map fun pair => standardText (repaired (valueOf pair)) := by
  rw [formField, split_lossy]
  induction pairs body with
  | nil => rfl
  | cons pair rest ih =>
    rw [List.map_cons, List.findSome?_cons, splitOnce_lossy, List.find?_cons]
    by_cases signed : pair.contains 0x3D = true
    · rw [if_pos signed]
      by_cases same : nameOf pair = bytes key.name
      · have found : key.spells pair = true := by simp only [FormKey.spells, signed, same, Bool.true_and, beq_self_eq_true]
        simp only [lossy_name.mpr same, found, if_true, Option.map_some, percentDecode_eq]
        rfl
      · have missed : key.spells pair = false := by simp [FormKey.spells, same]
        simp only [if_neg (mt lossy_name.mp same), missed, ih]
    · have missed : key.spells pair = false := by simp only [FormKey.spells, signed, Bool.false_and]
      rw [if_neg signed, missed]
      exact ih

theorem standardField_eq : standardField body key.name =
    ((pairs body).find? key.names).map fun pair => standardText (valueOf pair) := by
  rw [standardField, List.find?_map, Option.map_map]
  rfl

/-- A name spelled out is read by both. -/
theorem names_of_spells (spelled : key.spells pair = true) : key.names pair = true := by
  simp only [FormKey.spells, Bool.and_eq_true, beq_iff_eq] at spelled
  rw [FormKey.names, spelled.2, standardText, ← percentDecodeBytes_eq, key.name_plain, fromUtf8Lossy_bytes]
  exact decide_eq_true rfl

end Field

section Encoding

/-- The standard encodings of a text's bytes: a space may be a plus sign, an ASCII
byte without a meaning of its own may stand for itself, any byte may be escaped. -/
inductive Encodes : List UInt8 → List UInt8 → Prop where
  | nil : Encodes [] []
  | space {rest encoded} (more : Encodes rest encoded) : Encodes (0x20 :: rest) (0x2B :: encoded)
  | plain {b rest encoded} (ascii : b < 0x80) (free : b ≠ 0x25 ∧ b ≠ 0x26 ∧ b ≠ 0x2B) (more : Encodes rest encoded) :
      Encodes (b :: rest) (b :: encoded)
  | escape {b high low rest encoded} (left : hexByte high = some (b / 16)) (right : hexByte low = some (b % 16))
      (more : Encodes rest encoded) : Encodes (b :: rest) (0x25 :: high :: low :: encoded)

variable {raw encoded : List UInt8}

theorem hexByte_ascii {b h : UInt8} (digit : hexByte b = some h) : b < 0x80 ∧ b ≠ 0x26 := by
  have all : ∀ n < 256, (hexByte (UInt8.ofNat n)).isNone = true ∨ UInt8.ofNat n < 0x80 ∧ UInt8.ofNat n ≠ 0x26 := by
    decide +kernel
  have found := all b.toNat b.toNat_lt
  rw [UInt8.ofNat_toNat, digit] at found
  exact found.resolve_left (by simp)

/-- An encoding is ASCII without separators, and standard decoding undoes it. -/
theorem encodes_unescape (written : Encodes raw encoded) :
    (∀ b ∈ encoded, b < 0x80 ∧ b ≠ 0x26) ∧ unescape (encoded.map plusToSpace) = raw := by
  induction written with
  | nil => exact ⟨by simp, rfl⟩
  | space more ih =>
    refine ⟨?_, ?_⟩
    · intro b member
      rcases List.mem_cons.mp member with rfl | member
      · decide
      · exact ih.1 b member
    · rw [List.map_cons]
      exact (unescape_plain fun _ _ _ same => by cases same).trans (by rw [ih.2]; rfl)
  | @plain b rest encoded ascii free more ih =>
    refine ⟨?_, ?_⟩
    · intro c member
      rcases List.mem_cons.mp member with rfl | member
      · exact ⟨ascii, free.2.1⟩
      · exact ih.1 c member
    · have kept : plusToSpace b = b := if_neg free.2.2
      rw [List.map_cons, kept, unescape_plain fun _ _ _ same => (free.1 same).elim, ih.2]
  | @escape b high low rest encoded left right more ih =>
    refine ⟨?_, ?_⟩
    · intro c member
      simp only [List.mem_cons] at member
      rcases member with rfl | rfl | rfl | member
      · decide
      · exact hexByte_ascii left
      · exact hexByte_ascii right
      · exact ih.1 c member
    · have whole : b / 16 * 16 + b % 16 = b := by
        rw [← UInt8.toNat_inj]
        have small := b.toNat_lt
        simp
        omega
      rw [List.map_cons, List.map_cons, List.map_cons]
      refine (unescape_escape ((hexByte_plus high).trans left) ((hexByte_plus low).trans right)).trans ?_
      rw [whole, ih.2]

theorem repaired_ascii (all : ∀ b ∈ encoded, b < 0x80) : repaired encoded = encoded := by
  have same : lossy (repaired encoded) = lossy encoded := by
    rw [repaired, bytes, lossy_encode, fromUtf8Lossy_eq, String.toList_ofList]
  exact (lossy_eq_ascii all).mp same

theorem standardText_encoded {v : String} (written : Encodes (bytes v) encoded) : standardText encoded = v := by
  rw [standardText, (encodes_unescape written).2, fromUtf8Lossy_bytes]

/-- A body of one pair, its value in any standard encoding. -/
theorem formField_encoded {v : String} (key : FormKey) (written : Encodes (bytes v) encoded) :
    formField (bytes key.name ++ 0x3D :: encoded) key.name = some v ∧
      standardField (bytes key.name ++ 0x3D :: encoded) key.name = some v := by
  obtain ⟨plain, _⟩ := encodes_unescape written
  have sign : (0x3D : UInt8) ∉ bytes key.name := by cases key <;> decide +kernel
  have whole : pairs (bytes key.name ++ 0x3D :: encoded) = [bytes key.name ++ 0x3D :: encoded] := by
    apply List.splitOn_eq_singleton
    rw [List.mem_append, List.mem_cons, not_or, not_or]
    refine ⟨?_, by decide, fun member => (plain _ member).2 rfl⟩
    cases key <;> decide +kernel
  have spelled : key.spells (bytes key.name ++ 0x3D :: encoded) = true := by
    simp [FormKey.spells, (nameOf_append sign).1]
  rw [formField_eq, standardField_eq, whole, List.find?_cons_of_pos spelled, List.find?_cons_of_pos (names_of_spells spelled),
    Option.map_some, Option.map_some, (nameOf_append sign).2, repaired_ascii fun b member => (plain b member).1,
    standardText_encoded written]
  exact ⟨rfl, rfl⟩

end Encoding

/-- A pair that spells the name out holds the same text as the first pair that
names the field at all. -/
def Legible (key : FormKey) (body : List UInt8) : Prop :=
  ∀ named, (pairs body).find? key.names = some named → ∃ spelled, (pairs body).find? key.spells = some spelled ∧
    standardText (repaired (valueOf spelled)) = standardText (valueOf named)

/-- The first pair that names the field spells it, in valid UTF-8. -/
theorem legible_of_spelled {key : FormKey} {body : List UInt8} {text : String} {pair : List UInt8}
    (first : (pairs body).find? key.names = some pair) (spelled : key.spells pair = true)
    (valid : valueOf pair = bytes text) : Legible key body := by
  have same : (pairs body).find? key.spells = some pair := by
    obtain ⟨_, before, after, split, clean⟩ := List.find?_eq_some_iff_append.mp first
    refine List.find?_eq_some_iff_append.mpr ⟨spelled, before, after, split, fun other member => ?_⟩
    have unnamed := clean other member
    cases spells : key.spells other with
    | false => rfl
    | true => simp [names_of_spells spells] at unnamed
  intro named found
  cases first.symm.trans found
  refine ⟨pair, same, ?_⟩
  rw [valid, repaired, fromUtf8Lossy_bytes]

/-- The gateway reads the field that the standard parser reads if and only if a
spelled-out pair says the same as the first one, as it does when the first one is
spelled out and valid; it misses a field that is there if and only if no pair spells
its name out with an equals sign; and whatever text is encoded in a standard way is
read back. -/
theorem formField_standard_iff (body : List UInt8) (key : FormKey) :
    (formField body key.name = standardField body key.name ↔ Legible key body) ∧
      (∀ pair text, (pairs body).find? key.names = some pair → key.spells pair = true → valueOf pair = bytes text →
        Legible key body) ∧
      (formField body key.name = none ∧ (standardField body key.name).isSome = true ↔
        (∃ pair ∈ pairs body, key.names pair = true) ∧ ∀ pair ∈ pairs body, key.spells pair = false) ∧
      ∀ v encoded, Encodes (bytes v) encoded → formField (bytes key.name ++ 0x3D :: encoded) key.name = some v ∧
        standardField (bytes key.name ++ 0x3D :: encoded) key.name = some v := by
  refine ⟨?_, fun _ _ first spelled valid => legible_of_spelled first spelled valid, ?_,
    fun v encoded written => formField_encoded key written⟩
  · rw [formField_eq, standardField_eq, Legible]
    cases first : (pairs body).find? key.names with
    | none =>
      have missed : (pairs body).find? key.spells = none := by
        apply List.find?_eq_none.mpr
        intro pair member spelled
        exact List.find?_eq_none.mp first pair member (names_of_spells spelled)
      simp [missed]
    | some named =>
      cases (pairs body).find? key.spells with
      | none => simp
      | some spelled => simp
  · rw [formField_eq, standardField_eq, Option.map_eq_none_iff, Option.isSome_map, List.find?_isSome, List.find?_eq_none]
    simp only [Bool.not_eq_true]
    exact and_comm

/-- The name escaped: the standard parser finds the query, the gateway does not. -/
theorem escaped_name_missed :
    formField (bytes "%71=cat&limit=10") "q" = none ∧ standardField (bytes "%71=cat&limit=10") "q" = some "cat" := by
  decide

end LetsEmbed.Gateway
