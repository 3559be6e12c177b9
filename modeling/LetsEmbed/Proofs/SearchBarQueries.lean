import LetsEmbed.Proofs.GatewayNext
import LetsEmbed.Proofs.PagesMedia
import LetsEmbed.Proofs.TextDigits
import LetsEmbed.SearchBar

/-! The query of a link and what is read of it: every text comes back as it was put in,
whatever is special in a URL. -/

namespace LetsEmbed.SearchBar
open Gateway Results Search Systems Text

/-- Every value that the standard parser reads under a key, in the order of the fields. -/
def searchParams (search key : String) : List String :=
  ((((pairs (bytes ((stripPrefix "?" search).getD search))).filter (· ≠ [])).map fun pair =>
    (standardText (nameOf pair), standardText (valueOf pair))).filter (·.1 = key)).map (·.2)

/-- What the router gives of a URL's query. Of a repeated field it takes one, of whose
choice nothing is said here, and from what it took it takes the escapes away once more,
which may change a text with a percent sign in it. -/
def Reads (queryMap : (url key : String) → Option String) : Prop :=
  ∀ url key, (∀ value, searchParams (searchOf url) key = [value] → '%' ∉ value.toList → queryMap url key = some value) ∧
    (searchParams (searchOf url) key = [] → queryMap url key = none)

section Encoding
variable {safe : Char → Bool} {text : List Char}

theorem Encodes.append {raw encoded more rest : List UInt8} (first : Encodes raw encoded) (second : Encodes more rest) :
    Encodes (raw ++ more) (encoded ++ rest) := by
  induction first with
  | nil => exact second
  | space _ ih => exact ih.space
  | plain ascii free _ ih => exact ih.plain ascii free
  | escape left right _ ih => exact ih.escape left right

theorem toNat_ofNat {n : Nat} (small : n < 256) : (UInt8.ofNat n).toNat = n := UInt8.toNat_ofNat_of_lt' small

theorem hexByte_hexDigit (b : UInt8) : ∃ high low,
    String.utf8EncodeChar (Percent.hexDigit (b.toNat / 16)) = [high] ∧
      String.utf8EncodeChar (Percent.hexDigit (b.toNat % 16)) = [low] ∧ hexByte high = some (b / 16) ∧ hexByte low = some (b % 16) := by
  have all : ∀ n < 16, String.utf8EncodeChar (Percent.hexDigit n) = [UInt8.ofNat (Percent.hexDigit n).toNat] ∧
      hexByte (UInt8.ofNat (Percent.hexDigit n).toNat) = some (UInt8.ofNat n) := by
    decide +kernel
  have bound := b.toNat_lt
  have high : UInt8.ofNat (b.toNat / 16) = b / 16 := by
    rw [← UInt8.toNat_inj, toNat_ofNat (by omega), UInt8.toNat_div]
    rfl
  have low : UInt8.ofNat (b.toNat % 16) = b % 16 := by
    rw [← UInt8.toNat_inj, toNat_ofNat (by omega), UInt8.toNat_mod]
    rfl
  obtain ⟨first, left⟩ := all (b.toNat / 16) (by omega)
  obtain ⟨second, right⟩ := all (b.toNat % 16) (by omega)
  exact ⟨_, _, first, second, high ▸ left, low ▸ right⟩

/-- What may stand for itself in the value of a field. -/
def Plain (safe : Char → Bool) : Prop := ∀ c, safe c = true → c.toNat < 128 ∧ c ≠ '%' ∧ c ≠ '&' ∧ c ≠ '+' ∧ c ≠ '#'

theorem encodes_escaped (c : Char) : Encodes (String.utf8EncodeChar c) ((Percent.escaped c).flatMap String.utf8EncodeChar) := by
  unfold Percent.escaped
  induction String.utf8EncodeChar c with
  | nil => exact .nil
  | cons b rest ih =>
    obtain ⟨high, low, first, second, left, right⟩ := hexByte_hexDigit b
    rw [List.flatMap_cons, List.flatMap_append, List.flatMap_cons, List.flatMap_cons, List.flatMap_cons, List.flatMap_nil,
      first, second]
    exact .escape left right ih

theorem utf8EncodeChar_ascii {c : Char} (ascii : c.toNat < 128) : String.utf8EncodeChar c = [UInt8.ofNat c.toNat] := by
  unfold String.utf8EncodeChar
  exact if_pos (Nat.le_of_lt_succ ascii)

theorem ofNat_ne {c d : Char} (ascii : c.toNat < 128) (ascii' : d.toNat < 128) (differ : c ≠ d) :
    UInt8.ofNat c.toNat ≠ UInt8.ofNat d.toNat := by
  intro same
  rw [← UInt8.toNat_inj, toNat_ofNat (by omega), toNat_ofNat (by omega)] at same
  exact differ (Char.toNat_inj.mp same)

theorem encodes_encode (plain : Plain safe) : Encodes (text.flatMap String.utf8EncodeChar)
    ((Percent.encode safe text).flatMap String.utf8EncodeChar) := by
  induction text with
  | nil => exact .nil
  | cons c text ih =>
    rw [List.flatMap_cons, Percent.encode_cons, List.flatMap_append]
    refine Encodes.append ?_ ih
    unfold Percent.encodeChar
    split
    next kept =>
      obtain ⟨ascii, percent, separator, plus, _⟩ := plain c kept
      rw [List.flatMap_singleton, utf8EncodeChar_ascii ascii]
      refine .plain ?_ ⟨?_, ?_, ?_⟩ .nil
      · rw [UInt8.lt_iff_toNat_lt, toNat_ofNat (by omega)]
        exact ascii
      · exact @ofNat_ne c '%' ascii (by decide) percent
      · exact @ofNat_ne c '&' ascii (by decide) separator
      · exact @ofNat_ne c '+' ascii (by decide) plus
    · exact encodes_escaped c

end Encoding

section Fields

/-- A field of a query: its name, its value, and how that is written. -/
structure Field where
  name : String
  value : String
  written : String

/-- The standard parser reads it back, and nothing in it ends the field or the query. -/
structure Field.Sound (field : Field) : Prop where
  named : standardText (bytes field.name) = field.name
  name : ∀ c ∈ field.name.toList, c ≠ '#' ∧ c ≠ '&' ∧ c ≠ '='
  encodes : Encodes (bytes field.value) (bytes field.written)
  written : ∀ c ∈ field.written.toList, c ≠ '#' ∧ c ≠ '&'

def Field.bytes (field : Field) : List UInt8 := Text.bytes field.name ++ 0x3D :: Text.bytes field.written

def query (fields : List Field) : String := "&".intercalate (fields.map fun field => field.name ++ "=" ++ field.written)

variable {fields : List Field} {key path : String}

theorem bytes_query (fields : List Field) : bytes (query fields) = [0x26].intercalate (fields.map Field.bytes) := by
  have sign : bytes "=" = [0x3D] := by decide +kernel
  have each (field : Field) : bytes (field.name ++ "=" ++ field.written) = field.bytes := by
    rw [bytes_append, bytes_append, sign, List.append_assoc]
    rfl
  induction fields with
  | nil => rfl
  | cons field rest ih =>
    cases rest with
    | nil =>
      have single : query [field] = field.name ++ "=" ++ field.written := rfl
      rw [single, each]
      simp
    | cons next rest =>
      have split : query (field :: next :: rest) = field.name ++ "=" ++ field.written ++ "&" ++ query (next :: rest) := by
        rw [query, List.map_cons, List.map_cons, String.intercalate_cons_cons]
        rfl
      simp only [split, bytes_append, each, ih, List.map_cons, List.intercalate_cons_cons]
      rfl

theorem Field.Sound.clean {field : Field} (sound : field.Sound) : 0x3D ∉ Text.bytes field.name ∧ 0x26 ∉ field.bytes := by
  have absent {text : String} {c : Char} {b : UInt8} (ascii : b < 0x80) (same : Char.ofNat b.toNat = c)
      (free : ∀ d ∈ text.toList, d ≠ c) : b ∉ Text.bytes text := by
    intro member
    obtain ⟨d, inside, coded⟩ := List.mem_flatMap.mp member
    exact free d inside ((eq_of_mem_encodeChar ascii coded).trans same)
  refine ⟨@absent _ '=' _ (by decide) (by decide) fun c member => (sound.name c member).2.2, ?_⟩
  rw [Field.bytes, List.mem_append, List.mem_cons, not_or, not_or]
  refine ⟨@absent _ '&' _ (by decide) (by decide) fun c member => (sound.name c member).2.1, by decide, ?_⟩
  exact @absent _ '&' _ (by decide) (by decide) fun c member => (sound.written c member).2

/-- The fields of a name give their values. -/
theorem values_query (sound : ∀ field ∈ fields, field.Sound) (nonempty : fields ≠ []) :
    ((((pairs (bytes (query fields))).filter (· ≠ [])).map fun pair =>
      (standardText (nameOf pair), standardText (valueOf pair))).filter (·.1 = key)).map (·.2) =
      (fields.filter (·.name = key)).map (·.value) := by
  have whole : pairs (bytes (query fields)) = fields.map Field.bytes := by
    rw [pairs, bytes_query]
    apply List.splitOn_intercalate
    · intro raw member
      obtain ⟨field, inside, rfl⟩ := List.mem_map.mp member
      exact (sound field inside).clean.2
    · exact fun empty => nonempty (List.map_eq_nil_iff.mp empty)
  have full : (fields.map Field.bytes).filter (· ≠ []) = fields.map Field.bytes := by
    refine List.filter_eq_self.mpr fun raw member => ?_
    obtain ⟨field, _, rfl⟩ := List.mem_map.mp member
    simp [Field.bytes]
  have each : (fields.map Field.bytes).map (fun pair => (standardText (nameOf pair), standardText (valueOf pair))) =
      fields.map fun field => (field.name, field.value) := by
    rw [List.map_map]
    apply List.map_congr_left
    intro field inside
    obtain ⟨name, value⟩ := @nameOf_append (bytes field.name) (bytes field.written) (sound field inside).clean.1
    rw [Function.comp_apply, Field.bytes, name, value, (sound field inside).named,
      standardText_encoded (sound field inside).encodes]
  rw [whole, full, each, List.filter_map, List.map_map]
  rfl

theorem mem_query {c : Char} (member : c ∈ (query fields).toList) :
    c = '&' ∨ c = '=' ∨ ∃ field ∈ fields, c ∈ field.name.toList ∨ c ∈ field.written.toList := by
  rw [query, String.toList_intercalate] at member
  induction fields with
  | nil => cases member
  | cons field rest ih =>
    have own (inside : c ∈ (field.name ++ "=" ++ field.written).toList) :
        c = '=' ∨ ∃ field' ∈ field :: rest, c ∈ field'.name.toList ∨ c ∈ field'.written.toList := by
      rw [String.toList_append, String.toList_append, List.mem_append, List.mem_append] at inside
      rcases inside with (name | sign) | written
      · exact .inr ⟨field, List.mem_cons_self, .inl name⟩
      · exact .inl (List.mem_singleton.mp sign)
      · exact .inr ⟨field, List.mem_cons_self, .inr written⟩
    cases rest with
    | nil => exact .inr (own (by simpa using member))
    | cons next rest =>
      simp only [List.map_cons, List.intercalate_cons_cons, List.mem_append] at member ih
      rcases member with (here | separator) | later
      · exact .inr (own here)
      · exact .inl (List.mem_singleton.mp separator)
      · rcases ih later with separator | sign | ⟨other, inside, there⟩
        · exact .inl separator
        · exact .inr (.inl sign)
        · exact .inr (.inr ⟨other, List.mem_cons_of_mem _ inside, there⟩)

theorem searchParams_query (sound : ∀ field ∈ fields, field.Sound) (nonempty : fields ≠ [])
    (plain : ∀ c ∈ path.toList, c ≠ '#' ∧ c ≠ '?') :
    searchParams (searchOf (path ++ "?" ++ query fields)) key = (fields.filter (·.name = key)).map (·.value) := by
  have whole : ∀ c ∈ (path ++ "?" ++ query fields).toList, (c != '#') = true := by
    intro c member
    rw [bne_iff_ne]
    rw [String.toList_append, String.toList_append, List.mem_append, List.mem_append] at member
    rcases member with (own | mark) | asked
    · exact (plain c own).1
    · rw [List.mem_singleton.mp mark]
      decide
    · rcases mem_query asked with rfl | rfl | ⟨field, inside, name | written⟩
      · decide
      · decide
      · exact ((sound field inside).name c name).1
      · exact ((sound field inside).written c written).1
  have path_clean : ∀ c ∈ path.toList, (c != '?') = true := fun c member => bne_iff_ne.mpr (plain c member).2
  have search : searchOf (path ++ "?" ++ query fields) = "?" ++ query fields := by
    rw [searchOf, List.takeWhile_eq_self_iff.mpr whole, String.append_assoc, String.toList_append,
      List.dropWhile_append_of_pos path_clean, ← String.toList_inj, String.toList_ofList, String.toList_append]
    rfl
  have rest : stripPrefix "?" ("?" ++ query fields) = some (query fields) := by
    rw [stripPrefix_eq_some]
    exact String.toList_append
  rw [search, searchParams, rest, Option.getD_some]
  exact values_query sound nonempty

end Fields

section Numbers

theorem isDigit_toString {n : Nat} : ∀ c ∈ (toString n).toList, c.isDigit = true := by
  rw [Nat.toString_eq_ofList_toDigits, String.toList_ofList]
  exact fun _ member => Nat.isDigit_of_mem_toDigits (by decide) (by decide) member

theorem toString_cons (n : Nat) : ∃ c rest, (toString n).toList = c :: rest ∧ c.isDigit = true := by
  have digits := @isDigit_toString n
  cases spelled : (toString n).toList with
  | nil =>
    rw [Nat.toString_eq_ofList_toDigits, String.toList_ofList] at spelled
    exact absurd spelled Nat.toDigits_ne_nil
  | cons c rest =>
    rw [spelled] at digits
    exact ⟨c, rest, rfl, digits c List.mem_cons_self⟩

theorem digitsValue_toString (n : Nat) : digitsValue 10 (toString n).toList = some n := by
  obtain ⟨c, rest, spelled, digit⟩ := toString_cons n
  have read := @fromStrRadix_toString n n Nat.lt_two_pow_self
  rw [← String.ofList_toList (s := toString n), fromStrRadix_eq_some] at read
  obtain ⟨digits, same, _, kind, value, _⟩ := read
  have unsigned : (toString n).toList.head? ≠ some '+' := by
    rw [spelled]
    intro plus
    cases plus
    cases digit
  rw [if_neg unsigned] at same
  rw [← same]
  exact digitsValue_eq_some.mpr ⟨kind, value⟩

theorem parseI64_toString {n : Nat} (fits : n < 2 ^ 63) : parseI64 (toString n) = some (n : Int) := by
  obtain ⟨c, rest, spelled, digit⟩ := toString_cons n
  have value := digitsValue_toString n
  rw [spelled] at value
  have inside : Rust.InI64 n := ⟨by omega, by simp only [Rust.i64Max]; omega⟩
  unfold parseI64
  rw [spelled]
  split
  next sign digits split =>
    split at split
    · next minus =>
      cases minus
      cases digit
    · next plus =>
      cases plus
      cases digit
    · cases split
      simp [value, inside]

end Numbers

section Links

theorem root_plain : ∀ c ∈ "/".toList, c ≠ '#' ∧ c ≠ '?' := by
  intro c member
  rw [List.mem_singleton.mp member]
  decide

theorem parse_asStr (mode : Mode) : Mode.parse mode.asStr = mode := by
  cases mode <;> decide +kernel

theorem ascii_unreserved {c : Char} (kept : isUnreserved c = true) : c.toNat < 128 := by
  rw [isUnreserved, Bool.or_eq_true] at kept
  rcases kept with alphanumeric | mark
  · rcases (Bool.or_eq_true _ _).mp alphanumeric with alphabetic | digit
    · rcases (Bool.or_eq_true _ _).mp alphabetic with upper | lower
      · have high : c.toNat ≤ 90 := (of_decide_eq_true upper).2
        exact Nat.lt_of_le_of_lt high (by decide)
      · have high : c.toNat ≤ 122 := of_decide_eq_true ((Bool.and_eq_true _ _).mp lower).2
        exact Nat.lt_of_le_of_lt high (by decide)
    · have high : c.toNat ≤ 57 := of_decide_eq_true ((Bool.and_eq_true _ _).mp digit).2
      exact Nat.lt_of_le_of_lt high (by decide)
  · have member : c ∈ ['-', '_', '.', '~'] := by simpa using mark
    simp only [List.mem_cons, List.not_mem_nil, or_false] at member
    rcases member with rfl | rfl | rfl | rfl <;> decide

theorem plain_path : Plain fun c => isUnreserved c || c == '/' := by
  intro c kept
  have special : ∀ d ∈ ['%', '&', '+', '#'], c ≠ d := by
    intro d member same
    subst same
    simp only [List.mem_cons, List.not_mem_nil, or_false] at member
    rcases member with rfl | rfl | rfl | rfl <;> exact absurd kept (by decide)
  have ascii : c.toNat < 128 := by
    rw [Bool.or_eq_true, beq_iff_eq] at kept
    rcases kept with unreserved | rfl
    · exact ascii_unreserved unreserved
    · decide
  exact ⟨ascii, special '%' (by simp), special '&' (by simp), special '+' (by simp), special '#' (by simp)⟩

theorem plain_unreserved : Plain isUnreserved := fun c kept => plain_path c (by simp only [kept, Bool.true_or])

/-- The names of the fields of a link. -/
def Named (name : String) : Prop := standardText (bytes name) = name ∧ ∀ c ∈ name.toList, c ≠ '#' ∧ c ≠ '&' ∧ c ≠ '='

theorem named_of_all {name : String} (read : standardText (bytes name) = name)
    (clean : name.toList.all (fun c => c != '#' && c != '&' && c != '=') = true) : Named name := by
  refine ⟨read, fun c member => ?_⟩
  have free := List.all_eq_true.mp clean c member
  simpa only [Bool.and_eq_true, bne_iff_ne, and_assoc] using free

theorem named : Named "mode" ∧ Named "q" ∧ Named "limit" ∧ Named "seed" :=
  ⟨named_of_all (by decide +kernel) (by decide +kernel), named_of_all (by decide +kernel) (by decide +kernel),
    named_of_all (by decide +kernel) (by decide +kernel), named_of_all (by decide +kernel) (by decide +kernel)⟩

theorem sound_encoded {name value written : String} {safe : Char → Bool} (named : Named name) (plain : Plain safe)
    (encoded : written.toList = Percent.encode safe value.toList) : Field.Sound ⟨name, value, written⟩ where
  named := named.1
  name := named.2
  encodes := by
    rw [bytes, bytes, encoded]
    exact encodes_encode plain
  written := by
    dsimp only
    rw [encoded]
    intro c member
    rcases Percent.mem_encode member with kept | same | ⟨n, small, same⟩
    · exact ⟨(plain c kept).2.2.2.2, (plain c kept).2.2.1⟩
    · rw [same]
      decide
    · rw [same]
      exact (by decide : ∀ n < 16, Percent.hexDigit n ≠ '#' ∧ Percent.hexDigit n ≠ '&') n small

theorem encode_kept {safe : Char → Bool} {text : List Char} (kept : ∀ c ∈ text, safe c = true) :
    Percent.encode safe text = text := by
  rw [Percent.encode]
  have each : ∀ c ∈ text, Percent.encodeChar safe c = [c] := fun c member => if_pos (kept c member)
  rw [List.flatMap_congr each]
  exact List.flatMap_singleton' text

theorem sound_kept {name value : String} (named : Named name) (kept : ∀ c ∈ value.toList, isUnreserved c = true) :
    Field.Sound ⟨name, value, value⟩ := sound_encoded named plain_unreserved (encode_kept kept).symm

theorem unreserved_toString {n : Nat} : ∀ c ∈ (toString n).toList, isUnreserved c = true := by
  intro c member
  rw [isUnreserved, Char.isAlphanum, isDigit_toString c member, Bool.or_true, Bool.true_or]

theorem unreserved_asStr (mode : Mode) : ∀ c ∈ mode.asStr.toList, isUnreserved c = true := by
  apply List.all_eq_true.mp
  cases mode <;> decide +kernel

def goFields (bar : Bar) (q : String) (seed : Nat) : List Field :=
  [⟨"mode", bar.mode.asStr, bar.mode.asStr⟩, ⟨"q", q, urlencode q⟩,
      ⟨"limit", toString (max bar.limit 1), toString (max bar.limit 1)⟩] ++
    if bar.mode = .random then [⟨"seed", toString seed, toString seed⟩] else []

theorem go_eq (bar : Bar) (q : String) (seed : Nat) : bar.go q seed = "/" ++ "?" ++ query (goFields bar q seed) := by
  rw [Bar.go, goFields, ← String.toList_inj]
  split <;> simp [query]

theorem goFields_sound (bar : Bar) (q : String) (seed : Nat) : ∀ field ∈ goFields bar q seed, field.Sound := by
  obtain ⟨mode, q', limit, seed'⟩ := named
  rw [goFields, List.forall_mem_append]
  refine ⟨?_, ?_⟩
  · simp only [List.forall_mem_cons]
    exact ⟨sound_kept mode (unreserved_asStr _), sound_encoded q' plain_unreserved String.toList_ofList,
      sound_kept limit unreserved_toString, List.forall_mem_nil _⟩
  · split
    · exact List.forall_mem_singleton.mpr (sound_kept seed' unreserved_toString)
    · exact List.forall_mem_nil _

variable {queryMap : (url key : String) → Option String}

theorem Reads.value (reads : Reads queryMap) {url key value : String} (read : searchParams (searchOf url) key = [value])
    (kept : ∀ c ∈ value.toList, isUnreserved c = true) : queryMap url key = some value := by
  refine (reads url key).1 value read fun percent => ?_
  exact absurd (kept '%' percent) (by decide)

theorem goFields_values (bar : Bar) (q : String) (seed : Nat) (key : String) :
    searchParams (searchOf (bar.go q seed)) key = ((goFields bar q seed).filter (·.name = key)).map (·.value) := by
  rw [go_eq]
  exact searchParams_query (goFields_sound bar q seed) (by simp [goFields]) root_plain

/-- No field of a search is there twice. -/
theorem goFields_once (bar : Bar) (q : String) (seed : Nat) :
    searchParams (searchOf (bar.go q seed)) "mode" = [bar.mode.asStr] ∧ searchParams (searchOf (bar.go q seed)) "q" = [q] ∧
      searchParams (searchOf (bar.go q seed)) "limit" = [toString (max bar.limit 1)] ∧
      searchParams (searchOf (bar.go q seed)) "seed" = if bar.mode = .random then [toString seed] else [] := by
  simp only [goFields_values, goFields]
  split <;> exact ⟨rfl, rfl, rfl, rfl⟩

/-- What was put into the link of a search is what is searched for. -/
theorem read_go (reads : Reads queryMap) {bar : Bar} {q : String} {seed : Nat} (typed : '%' ∉ q.toList) (fits : bar.limit < 2 ^ 32)
    (rolled : seed < 2 ^ 63) : readParams (queryMap (bar.go q seed)) =
      ⟨bar.mode, q, (max bar.limit 1 : Nat), if bar.mode = .random then seed else 0⟩ := by
  obtain ⟨own, searched, most, drawn⟩ := goFields_once bar q seed
  have mode : queryMap (bar.go q seed) "mode" = some bar.mode.asStr := reads.value own (unreserved_asStr _)
  have text : queryMap (bar.go q seed) "q" = some q := (reads _ _).1 q searched typed
  have limit : queryMap (bar.go q seed) "limit" = some (toString (max bar.limit 1)) := reads.value most unreserved_toString
  have small : max bar.limit 1 < 2 ^ 63 := by omega
  have atLeast : max ((max bar.limit 1 : Nat) : Int) 1 = (max bar.limit 1 : Nat) := by omega
  have seed : ((queryMap (bar.go q seed) "seed").bind parseI64).getD 0 = if bar.mode = .random then (seed : Int) else 0 := by
    by_cases random : bar.mode = .random
    · rw [if_pos random] at drawn
      rw [reads.value drawn unreserved_toString, Option.bind_some, parseI64_toString rolled, if_pos random]
      rfl
    · rw [if_neg random] at drawn
      rw [(reads _ _).2 drawn, if_neg random]
      rfl
  rw [readParams, mode, text, limit, seed, Option.bind_some, parseI64_toString small]
  simp only [Option.getD_some, parse_asStr, atLeast]

end Links
end LetsEmbed.SearchBar
