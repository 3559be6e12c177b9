import LetsEmbed.Proofs.TextDigits
import LetsEmbed.Siwe

/-! Messages as EIP-4361 renders them, and that they are parsed back. What may
follow the fields is a grammar of its own. -/

namespace LetsEmbed.Siwe
open Systems Text

/-- Lines with their ends, of which each may be a CRLF. -/
def text (written : List (String × Bool)) : String :=
  "\n".intercalate (written.map fun (l, crlf) => if crlf then l ++ "\r" else l)

/-- Without a statement there are one or two blank lines. -/
def statementPart (second : Bool) : Option String → List String
  | none => if second then [""] else []
  | some statement => split '\n' statement ++ [""]

def fieldPart (msg : SiweMessage) : List String :=
  ["URI: " ++ msg.uri, "Version: " ++ msg.version, "Chain ID: " ++ toString msg.chainId, "Nonce: " ++ msg.nonce,
    "Issued At: " ++ msg.issuedAt] ++ (msg.expirationTime.map ("Expiration Time: " ++ ·)).toList

def messageLines (msg : SiweMessage) (second : Bool) : List String :=
  [msg.domain ++ preambleSuffix, msg.address, ""] ++ statementPart second msg.statement ++ fieldPart msg

def OneLine (s : String) : Prop := '\n' ∉ s.toList ∧ '\r' ∉ s.toList

instance (s : String) : Decidable (OneLine s) := inferInstanceAs (Decidable (_ ∧ _))

structure Renderable (msg : SiweMessage) : Prop where
  domain : msg.domain ≠ ""
  address : msg.address ≠ ""
  fields : ∀ value ∈ [msg.domain, msg.address, msg.uri, msg.version, msg.nonce, msg.issuedAt] ++ msg.expirationTime.toList,
    OneLine value
  statement : ∀ statement, msg.statement = some statement → ∀ l ∈ split '\n' statement, l ≠ "" ∧ OneLine l
  first : ∀ statement, msg.statement = some statement → ∀ l ∈ (split '\n' statement).head?, startsWith l "URI: " = false
  chainId : msg.chainId < 2 ^ 64

inductive TrailingField where
  | notBefore (value : String)
  | requestId (value : String)
  | resources (items : List String)

def TrailingField.lines : TrailingField → List String
  | .notBefore value => ["Not Before: " ++ value]
  | .requestId value => ["Request ID: " ++ value]
  | .resources items => "Resources:" :: items.map ("- " ++ ·)

def Trailer (tail : List String) : Prop :=
  ∃ (parts : List TrailingField) (blanks : Nat), tail = parts.flatMap (·.lines) ++ List.replicate blanks ""

section Lines
variable {written : List (String × Bool)} {l : String} {c : Char}

theorem stripSuffix_end (plain : '\r' ∉ l.toList) (crlf : Bool) :
    (stripSuffix "\r" (if crlf then l ++ "\r" else l)).getD (if crlf then l ++ "\r" else l) = l := by
  cases crlf with
  | true =>
    have found : stripSuffix "\r" (l ++ "\r") = some l := stripSuffix_eq_some.mpr String.toList_append
    rw [if_pos rfl, found]
    rfl
  | false =>
    have bare : stripSuffix "\r" l = none := by
      rw [Option.eq_none_iff_forall_ne_some]
      intro rest found
      apply plain
      rw [stripSuffix_eq_some.mp found]
      exact List.mem_append_right _ (by decide)
    simp [bare]

theorem lines_text (nonempty : written ≠ []) (plain : ∀ l ∈ written.map (·.1), OneLine l) :
    lines (text written) = written.map (·.1) := by
  have ended : ∀ part ∈ written.map fun (l, crlf) => if crlf then l ++ "\r" else l, '\n' ∉ part.toList := by
    intro part member
    obtain ⟨⟨l, crlf⟩, listed, made⟩ := List.mem_map.mp member
    have free := (plain l (List.mem_map_of_mem listed)).1
    rw [← made]
    cases crlf with
    | true => simpa [String.toList_append] using free
    | false => exact free
  have split : split '\n' (text written) = written.map fun (l, crlf) => if crlf then l ++ "\r" else l :=
    split_intercalate String.toList_ofList ended (by simpa using nonempty)
  rw [lines, split, List.map_map]
  apply List.map_congr_left
  intro line listed
  exact stripSuffix_end (plain line.1 (List.mem_map_of_mem listed)).2 line.2

theorem startsWith_iff_append {start : String} : startsWith l start = true ↔ ∃ rest, l = start ++ rest := by
  rw [startsWith, List.isPrefixOf_iff_prefix]
  constructor
  · intro ⟨rest, whole⟩
    refine ⟨String.ofList rest, String.toList_inj.mp ?_⟩
    rw [String.toList_append, String.toList_ofList, whole]
  · intro ⟨rest, whole⟩
    rw [whole, String.toList_append]
    exact List.prefix_append ..

theorem startsWith_other {start other : String} {c d : Char} (first : start.toList.head? = some c)
    (second : other.toList.head? = some d) (differ : c ≠ d) : startsWith (start ++ l) other = false := by
  rw [← Bool.not_eq_true, startsWith_iff_append]
  intro ⟨rest, whole⟩
  have heads : (start ++ l).toList.head? = some c := by
    rw [String.toList_append, List.head?_append, first]
    rfl
  rw [whole, String.toList_append, List.head?_append, second] at heads
  exact differ (Option.some.inj heads).symm

end Lines

section Trailing
variable {resources : Bool} {tail rest : List String} {value : String}

theorem trailing_blank (blanks : Nat) : trailing resources (List.replicate blanks "") = .ok () := by
  cases blanks with
  | zero => rfl
  | succ blanks =>
    have item : startsWith "" "- " = false := by decide
    have before : startsWith "" "Not Before: " = false := by decide
    have request : startsWith "" "Request ID: " = false := by decide
    have all : ∀ r ∈ List.replicate blanks "", r = "" := fun _ member => List.eq_of_mem_replicate member
    rw [List.replicate_succ, trailing, item, before, request, Bool.and_false, if_neg Bool.false_ne_true, Bool.or_false,
      if_neg Bool.false_ne_true, if_neg (by decide), if_pos ⟨rfl, all⟩]

theorem trailing_item : trailing true (("- " ++ value) :: rest) = trailing true rest := by
  rw [trailing, startsWith_iff_append.mpr ⟨value, rfl⟩]
  rfl

theorem trailing_items (items : List String) : trailing true (items.map ("- " ++ ·) ++ rest) = trailing true rest := by
  induction items with
  | nil => rfl
  | cons item items ih => rw [List.map_cons, List.cons_append, trailing_item, ih]

theorem trailing_part (part : TrailingField) : ∃ late, trailing resources (part.lines ++ rest) = trailing late rest := by
  cases part with
  | notBefore value =>
    have item : startsWith ("Not Before: " ++ value) "- " = false :=
      startsWith_other (c := 'N') (d := '-') (by decide) (by decide) (by decide)
    refine ⟨false, ?_⟩
    rw [TrailingField.lines, List.singleton_append, trailing, item, startsWith_iff_append.mpr ⟨value, rfl⟩, Bool.and_false,
      if_neg Bool.false_ne_true, Bool.true_or, if_pos rfl]
  | requestId value =>
    have item : startsWith ("Request ID: " ++ value) "- " = false :=
      startsWith_other (c := 'R') (d := '-') (by decide) (by decide) (by decide)
    refine ⟨false, ?_⟩
    rw [TrailingField.lines, List.singleton_append, trailing, item, @startsWith_iff_append _ "Request ID: " |>.mpr ⟨value, rfl⟩,
      Bool.and_false, if_neg Bool.false_ne_true, Bool.or_true, if_pos rfl]
  | resources items =>
    refine ⟨true, ?_⟩
    have item : startsWith "Resources:" "- " = false := by decide
    have before : startsWith "Resources:" "Not Before: " = false := by decide
    have request : startsWith "Resources:" "Request ID: " = false := by decide
    rw [TrailingField.lines, List.cons_append, trailing, item, before, request, Bool.and_false, if_neg Bool.false_ne_true,
      Bool.or_false, if_neg Bool.false_ne_true, if_pos rfl, trailing_items]

theorem trailing_parts (parts : List TrailingField) (blanks : Nat) :
    trailing resources (parts.flatMap (·.lines) ++ List.replicate blanks "") = .ok () := by
  induction parts generalizing resources with
  | nil => exact trailing_blank blanks
  | cons part parts ih =>
    obtain ⟨late, skipped⟩ := @trailing_part resources (parts.flatMap (·.lines) ++ List.replicate blanks "") part
    rw [List.flatMap_cons, List.append_assoc, skipped, ih]

/-- What is tolerated, in the middle of a list of resources or not. -/
theorem trailing_sound (trails : trailing resources tail = .ok ()) :
    ∃ (items : List String) (parts : List TrailingField) (blanks : Nat), (resources = false → items = []) ∧
      tail = items.map ("- " ++ ·) ++ (parts.flatMap (·.lines) ++ List.replicate blanks "") := by
  induction tail generalizing resources with
  | nil => exact ⟨[], [], 0, fun _ => rfl, rfl⟩
  | cons l rest ih =>
    rw [trailing] at trails
    split at trails
    next listed =>
      obtain ⟨open', begins⟩ := Bool.and_eq_true_iff.mp listed
      obtain ⟨value, same⟩ := startsWith_iff_append.mp begins
      obtain ⟨items, parts, blanks, _, whole⟩ := ih trails
      refine ⟨value :: items, parts, blanks, fun closed => by simp [open'] at closed, ?_⟩
      rw [same, whole]
      rfl
    split at trails
    next named =>
      obtain ⟨items, parts, blanks, empty, whole⟩ := ih trails
      rw [empty rfl] at whole
      cases Bool.or_eq_true_iff.mp named with
      | inl begins =>
        obtain ⟨value, same⟩ := startsWith_iff_append.mp begins
        refine ⟨[], .notBefore value :: parts, blanks, fun _ => rfl, ?_⟩
        rw [same, whole]
        rfl
      | inr begins =>
        obtain ⟨value, same⟩ := startsWith_iff_append.mp begins
        refine ⟨[], .requestId value :: parts, blanks, fun _ => rfl, ?_⟩
        rw [same, whole]
        rfl
    split at trails
    next opens =>
      obtain ⟨items, parts, blanks, _, whole⟩ := ih trails
      refine ⟨[], .resources items :: parts, blanks, fun _ => rfl, ?_⟩
      rw [opens, whole, List.flatMap_cons, List.append_assoc]
      rfl
    split at trails
    next blank =>
      refine ⟨[], [], rest.length + 1, fun _ => rfl, ?_⟩
      rw [blank.1, List.replicate_succ]
      exact congrArg _ (List.eq_replicate_of_mem blank.2)
    · cases trails

theorem trailer_iff : trailing false tail = .ok () ↔ Trailer tail := by
  constructor
  · intro trails
    obtain ⟨items, parts, blanks, empty, whole⟩ := trailing_sound trails
    rw [empty rfl] at whole
    exact ⟨parts, blanks, whole⟩
  · intro ⟨parts, blanks, whole⟩
    rw [whole]
    exact trailing_parts parts blanks

theorem trailing_fails (fails : trailing resources tail ≠ .ok ()) :
    trailing resources tail = .error (.parse "unexpected trailing line") := by
  induction tail generalizing resources with
  | nil => cases fails rfl
  | cons l rest ih =>
    rw [trailing] at fails ⊢
    split
    next listed => exact ih (by rwa [if_pos listed] at fails)
    next unlisted =>
      rw [if_neg unlisted] at fails
      split
      next named => exact ih (by rwa [if_pos named] at fails)
      next unnamed =>
        rw [if_neg unnamed] at fails
        split
        next opens => exact ih (by rwa [if_pos opens] at fails)
        next other =>
          rw [if_neg other] at fails
          split
          next blank => exact absurd (if_pos blank) fails
          · rfl

end Trailing

section Message
variable {msg : SiweMessage} {second : Bool} {tail rest block : List String} {name start value : String}

theorem statementLines_block (filled : ∀ l ∈ block, l ≠ "") :
    statementLines false (block ++ "" :: rest) = .ok (block, rest) := by
  induction block with
  | nil => rfl
  | cons l block ih =>
    obtain ⟨first, others⟩ := List.forall_mem_cons.mp filled
    rw [List.cons_append, statementLines, Bool.false_and, if_neg Bool.false_ne_true, if_neg first, ih others]
    rfl

/-- A first line that is no field is read like any other. -/
theorem statementLines_first (filled : ∀ l ∈ block, l ≠ "") (other : ∀ l ∈ block.head?, startsWith l "URI: " = false) :
    statementLines true (block ++ "" :: rest) = .ok (block, rest) := by
  cases block with
  | nil =>
    have blank : startsWith "" "URI: " = false := by decide
    rw [List.nil_append, statementLines, blank, Bool.and_false, if_neg Bool.false_ne_true, if_pos rfl]
  | cons l block =>
    have read := @statementLines_block rest (l :: block) filled
    have first := other l rfl
    rw [List.cons_append, statementLines, Bool.false_and] at read
    rw [List.cons_append, statementLines, first, Bool.and_false]
    exact read

theorem statement_read (renderable : Renderable msg) :
    ∃ block, statementLines true (statementPart second msg.statement ++ ("URI: " ++ value) :: rest) =
        .ok (block, ("URI: " ++ value) :: rest) ∧
      (if block.isEmpty then none else some ("\n".intercalate block)) = msg.statement := by
  cases stated : msg.statement with
  | none =>
    refine ⟨[], ?_, rfl⟩
    cases second with
    | true => exact statementLines_first (List.forall_mem_nil _) (fun _ impossible => by cases impossible)
    | false =>
      have begins : startsWith ("URI: " ++ value) "URI: " = true := startsWith_iff_append.mpr ⟨value, rfl⟩
      rw [statementPart, if_neg Bool.false_ne_true, List.nil_append, statementLines, begins]
      rfl
  | some statement =>
    have filled : ∀ l ∈ split '\n' statement, l ≠ "" := fun l member => (renderable.statement statement stated l member).1
    refine ⟨split '\n' statement, ?_, ?_⟩
    · rw [statementPart, List.append_assoc]
      exact statementLines_first filled (renderable.first statement stated)
    · have nonempty : (split '\n' statement).isEmpty = false := by
        rw [List.isEmpty_eq_false_iff, Text.split, ne_eq, List.map_eq_nil_iff]
        exact List.splitOn_ne_nil _ _
      have newline : "\n".toList = ['\n'] := String.toList_ofList
      have joined : "\n".intercalate (split '\n' statement) = statement := by
        apply String.toList_inj.mp
        rw [String.toList_intercalate, Text.split, List.map_map, newline]
        have chars : (statement.toList.splitOn '\n').map (String.toList ∘ String.ofList) = statement.toList.splitOn '\n' :=
          List.map_id'' (fun _ => String.toList_ofList) _
        rw [chars, List.intercalate_splitOn]
      rw [nonempty, if_neg Bool.false_ne_true, joined]

theorem field_read : field name start ((start ++ value) :: rest) = .ok (value, rest) := by
  have taken : stripPrefix start (start ++ value) = some value := stripPrefix_eq_some.mpr String.toList_append
  simp only [field, next, bind, Except.bind, taken]
  rfl

theorem expiration_read (expiring : Option String)
    (other : expiring = none → ∀ l ∈ tail.head?, startsWith l "Expiration Time: " = false) :
    expiration ((expiring.map ("Expiration Time: " ++ ·)).toList ++ tail) = (expiring, tail) := by
  cases expiring with
  | some value =>
    have taken : stripPrefix "Expiration Time: " ("Expiration Time: " ++ value) = some value :=
      stripPrefix_eq_some.mpr String.toList_append
    simp only [Option.map_some, Option.toList_some, List.singleton_append, expiration, taken]
  | none =>
    cases tail with
    | nil => rfl
    | cons l rest =>
      have plain := other rfl l rfl
      have untaken : stripPrefix "Expiration Time: " l = none := by
        rw [Option.eq_none_iff_forall_ne_some]
        intro value taken
        have whole : l = "Expiration Time: " ++ value := by
          apply String.toList_inj.mp
          rw [stripPrefix_eq_some.mp taken, String.toList_append]
        rw [startsWith_iff_append.mpr ⟨value, whole⟩] at plain
        cases plain
      simp only [Option.map_none, Option.toList_none, List.nil_append, expiration, untaken]

theorem parse_lines (renderable : Renderable msg) {message : String} (whole : lines message = messageLines msg second ++ tail)
    (other : msg.expirationTime = none → ∀ l ∈ tail.head?, startsWith l "Expiration Time: " = false) :
    parseSiwe message = (trailing false tail).map fun _ => msg := by
  have domain : stripSuffix preambleSuffix (msg.domain ++ preambleSuffix) = some msg.domain :=
    stripSuffix_eq_some.mpr String.toList_append
  have expires := @expiration_read tail msg.expirationTime other
  obtain ⟨block, stated, statement⟩ := @statement_read msg second
    (["Version: " ++ msg.version, "Chain ID: " ++ toString msg.chainId, "Nonce: " ++ msg.nonce, "Issued At: " ++ msg.issuedAt] ++
      ((msg.expirationTime.map ("Expiration Time: " ++ ·)).toList ++ tail)) msg.uri renderable
  have parts : lines message = (msg.domain ++ preambleSuffix) :: msg.address :: "" ::
      (statementPart second msg.statement ++ ("URI: " ++ msg.uri) ::
        (["Version: " ++ msg.version, "Chain ID: " ++ toString msg.chainId, "Nonce: " ++ msg.nonce,
          "Issued At: " ++ msg.issuedAt] ++ ((msg.expirationTime.map ("Expiration Time: " ++ ·)).toList ++ tail))) := by
    rw [whole, messageLines, fieldPart]
    simp only [List.append_assoc, List.cons_append, List.nil_append]
  simp only [List.cons_append, List.nil_append] at stated parts
  simp only [parseSiwe, parts, next, bind, Except.bind, pure, Except.pure, domain, if_neg renderable.domain,
    if_neg renderable.address, ne_eq, not_true_eq_false, if_false, stated, field_read,
    fromStrRadix_toString renderable.chainId, expires, statement]
  cases trailing false tail <;> rfl

theorem oneLine_append {start : String} (begins : OneLine start) (plain : OneLine value) : OneLine (start ++ value) := by
  rw [OneLine, String.toList_append, List.mem_append, List.mem_append]
  exact ⟨fun found => found.elim begins.1 plain.1, fun found => found.elim begins.2 plain.2⟩

theorem oneLine_toString (n : Nat) : OneLine (toString n) := by
  have decimal {c : Char} (member : c ∈ (toString n).toList) : c.isDigit = true := by
    rw [Nat.toString_eq_ofList_toDigits, String.toList_ofList] at member
    exact Nat.isDigit_of_mem_toDigits (by decide) (by decide) member
  exact ⟨fun found => absurd (decimal found) (by decide), fun found => absurd (decimal found) (by decide)⟩

theorem messageLines_oneLine (renderable : Renderable msg) : ∀ l ∈ messageLines msg second, OneLine l := by
  have fields := renderable.fields
  simp only [List.forall_mem_append, List.forall_mem_cons] at fields
  obtain ⟨⟨domain, address, uri, version, nonce, issuedAt, _⟩, expires⟩ := fields
  have blank : OneLine "" := by decide
  have statement : ∀ l ∈ statementPart second msg.statement, OneLine l := by
    cases stated : msg.statement with
    | none => cases second <;> simp [statementPart, blank]
    | some statement =>
      rw [statementPart, List.forall_mem_append, List.forall_mem_singleton]
      exact ⟨fun l member => (renderable.statement statement stated l member).2, blank⟩
  have expiration : ∀ l ∈ (msg.expirationTime.map ("Expiration Time: " ++ ·)).toList, OneLine l := by
    cases expiring : msg.expirationTime with
    | none => exact List.forall_mem_nil _
    | some value =>
      have plain := expires value (by rw [expiring]; exact List.mem_cons_self)
      exact List.forall_mem_singleton.mpr (oneLine_append (by decide) plain)
  simp only [messageLines, fieldPart, List.forall_mem_append, List.forall_mem_cons]
  refine ⟨⟨⟨oneLine_append domain (by decide), address, blank, List.forall_mem_nil _⟩, statement⟩, ?_, expiration⟩
  exact ⟨oneLine_append (by decide) uri, oneLine_append (by decide) version, oneLine_append (by decide) (oneLine_toString _),
    oneLine_append (by decide) nonce, oneLine_append (by decide) issuedAt, List.forall_mem_nil _⟩

/-- Rendering is parsed back, whatever the ends of its lines, with what is tolerated
behind it and with nothing else. -/
theorem parse_rendering (msg : SiweMessage) (second : Bool) (tail : List String) (written : List (String × Bool))
    (renderable : Renderable msg) (plain : ∀ l ∈ tail, OneLine l)
    (other : msg.expirationTime = none → ∀ l ∈ tail.head?, startsWith l "Expiration Time: " = false)
    (same : written.map (·.1) = messageLines msg second ++ tail) :
    (Trailer tail → parseSiwe (text written) = .ok msg) ∧
      (¬Trailer tail → parseSiwe (text written) = .error (.parse "unexpected trailing line")) := by
  have nonempty : written ≠ [] := by
    intro empty
    rw [empty] at same
    cases same
  have whole : lines (text written) = messageLines msg second ++ tail := by
    rw [lines_text nonempty, same]
    rw [same]
    exact List.forall_mem_append.mpr ⟨messageLines_oneLine renderable, plain⟩
  have parsed := parse_lines renderable whole other
  constructor
  · intro trailer
    rw [parsed, trailer_iff.mpr trailer]
    rfl
  · intro alien
    rw [parsed, trailing_fails fun trails => alien (trailer_iff.mp trails)]
    rfl

end Message

section Example

def sampleMessage : SiweMessage :=
  ⟨"a.example", "0xAb", some "Sign in\nto lets_embed", "https://a.example", "1", 5, "nonce", "2026-07-04T00:00:00Z", none⟩

theorem parse_rendering_crlf :
    let tail := ["Not Before: 2026", "Resources:", "- ipfs://a", ""]
    parseSiwe (text ((messageLines sampleMessage true ++ tail).map fun l => (l, true))) = .ok sampleMessage := by
  have renderable : Renderable sampleMessage := by
    refine ⟨by decide, by decide, by decide +kernel, ?_, ?_, by decide⟩
    · intro statement stated
      cases stated
      decide +kernel
    · intro statement stated
      cases stated
      decide +kernel
  intro tail
  have kept (ls : List String) : (ls.map fun l => (l, true)).map (·.1) = ls := by
    rw [List.map_map]
    exact List.map_id _
  exact (parse_rendering sampleMessage true tail _ renderable (by decide +kernel) (fun _ => by decide +kernel) (kept _)).1
    ⟨[.notBefore "2026", .resources ["ipfs://a"]], 1, by decide +kernel⟩

end Example
end LetsEmbed.Siwe
