import LetsEmbed.Proofs.AuthRules

/-! How far a sign-in respects the times its own message states. A message is
read off its lines: the fields follow the statement, in an order the parser
insists on up to the optional expiration, and what trails them is dropped. -/

namespace LetsEmbed.Siwe
open Text

/-- What stands behind the preamble, the address, the blank line and the
statement with its own blank line. -/
def fieldLines (text : String) : List String :=
  match (lines text).drop 3 with
  | [] => []
  | l :: rest => if startsWith l "URI: " then l :: rest else ((l :: rest).dropWhile (· ≠ "")).drop 1

theorem bind_ok {ε α β : Type} {step : Except ε α} {next : α → Except ε β} {result : β} :
    step >>= next = .ok result ↔ ∃ value, step = .ok value ∧ next value = .ok result := by
  cases step with
  | error e =>
    constructor
    · intro impossible
      cases impossible
    · intro found
      obtain ⟨_, impossible, _⟩ := found
      cases impossible
  | ok value =>
    constructor
    · exact fun right => ⟨value, rfl, right⟩
    · intro found
      obtain ⟨_, same, right⟩ := found
      cases same
      exact right

theorem next_ok {what : String} {ls : List String} {found : String × List String} :
    next what ls = .ok found ↔ ls = found.1 :: found.2 := by
  cases ls with
  | nil => simp [next]
  | cons l rest => simp [next, Prod.ext_iff]

theorem field_ok {name start : String} {ls : List String} {found : String × List String}
    (read : field name start ls = .ok found) : ls = (start ++ found.1) :: found.2 := by
  obtain ⟨⟨l, rest⟩, got, read⟩ := bind_ok.mp read
  rw [next_ok.mp got]
  dsimp only at read
  split at read
  next value taken =>
    cases read
    have whole := stripPrefix_eq_some.mp taken
    rw [← String.toList_append] at whole
    rw [String.toList_inj.mp whole]
  · cases read

/-- The statement's own recursion never stops at a field again, so from its second
line on what is left is a matter of the first blank line. -/
theorem statementLines_rest {ls block rest : List String} (read : statementLines false ls = .ok (block, rest)) :
    (ls.dropWhile (· ≠ "")).drop 1 = rest := by
  induction ls generalizing block with
  | nil => cases read
  | cons l more ih =>
    rw [statementLines, Bool.false_and, if_neg Bool.false_ne_true] at read
    split at read
    next blank =>
      cases read
      rw [List.dropWhile_cons_of_neg (by simpa using blank)]
      rfl
    next text =>
      obtain ⟨⟨block, late⟩, got, read⟩ := bind_ok.mp read
      cases read
      rw [List.dropWhile_cons_of_pos (by simpa using text)]
      exact ih got

theorem fieldLines_of_statement {text first address blank : String} {ls block rest : List String}
    (whole : lines text = first :: address :: blank :: ls) (read : statementLines true ls = .ok (block, rest)) :
    fieldLines text = rest := by
  rw [fieldLines, whole, List.drop_succ_cons, List.drop_succ_cons, List.drop_succ_cons, List.drop_zero]
  cases ls with
  | nil => cases read
  | cons l more =>
    rw [statementLines, Bool.true_and] at read
    dsimp only
    split at read
    next starts =>
      cases read
      rw [if_pos starts]
    next other =>
      rw [if_neg other]
      refine @statementLines_rest _ block _ ?_
      rwa [statementLines, Bool.false_and, if_neg Bool.false_ne_true]

theorem expiration_lines (ls : List String) :
    ls = ((expiration ls).1.map ("Expiration Time: " ++ ·)).toList ++ (expiration ls).2 := by
  cases ls with
  | nil => rfl
  | cons l rest =>
    rw [expiration]
    split
    next value taken =>
      have whole := stripPrefix_eq_some.mp taken
      rw [← String.toList_append] at whole
      rw [String.toList_inj.mp whole]
      rfl
    · rfl

theorem parseSiwe_fields {text : String} {msg : SiweMessage} (parsed : parseSiwe text = .ok msg) :
    ∃ chain rest, trailing false rest = .ok () ∧
      fieldLines text = ["URI: " ++ msg.uri, "Version: " ++ msg.version, "Chain ID: " ++ chain, "Nonce: " ++ msg.nonce,
        "Issued At: " ++ msg.issuedAt] ++ (msg.expirationTime.map ("Expiration Time: " ++ ·)).toList ++ rest := by
  obtain ⟨⟨first, rest⟩, preamble, parsed⟩ := bind_ok.mp parsed
  dsimp only at parsed
  split at parsed
  case h_2 => cases parsed
  obtain ⟨domain, taken, parsed⟩ := bind_ok.mp parsed
  split at parsed
  case isTrue => cases parsed
  obtain ⟨⟨address, rest⟩, named, parsed⟩ := bind_ok.mp parsed
  dsimp only at parsed
  split at parsed
  case isTrue => cases parsed
  obtain ⟨⟨blank, body⟩, gap, parsed⟩ := bind_ok.mp parsed
  dsimp only at parsed
  split at parsed
  case isTrue => cases parsed
  obtain ⟨⟨block, fields⟩, stated, parsed⟩ := bind_ok.mp parsed
  obtain ⟨⟨uri, versionOn⟩, uriRead, parsed⟩ := bind_ok.mp parsed
  obtain ⟨⟨version, chainOn⟩, versionRead, parsed⟩ := bind_ok.mp parsed
  obtain ⟨⟨chain, nonceOn⟩, chainRead, parsed⟩ := bind_ok.mp parsed
  dsimp only at parsed
  split at parsed
  case h_2 => cases parsed
  obtain ⟨chainId, known, parsed⟩ := bind_ok.mp parsed
  obtain ⟨⟨nonce, issuedOn⟩, nonceRead, parsed⟩ := bind_ok.mp parsed
  obtain ⟨⟨issuedAt, rest⟩, issuedRead, parsed⟩ := bind_ok.mp parsed
  obtain ⟨_, trails, parsed⟩ := bind_ok.mp parsed
  cases parsed
  have whole : lines text = first :: address :: blank :: body := by
    rw [next_ok.mp preamble, next_ok.mp named, next_ok.mp gap]
  have fromVersion : versionOn = ("Version: " ++ version) :: chainOn := field_ok versionRead
  have fromChain : chainOn = ("Chain ID: " ++ chain) :: nonceOn := field_ok chainRead
  have fromNonce : nonceOn = ("Nonce: " ++ nonce) :: issuedOn := field_ok nonceRead
  have fromIssued : issuedOn = ("Issued At: " ++ issuedAt) :: rest := field_ok issuedRead
  refine ⟨chain, (expiration rest).2, trails, ?_⟩
  calc fieldLines text = ("URI: " ++ uri) :: versionOn := (fieldLines_of_statement whole stated).trans (field_ok uriRead)
    _ = ["URI: " ++ uri, "Version: " ++ version, "Chain ID: " ++ chain, "Nonce: " ++ nonce, "Issued At: " ++ issuedAt] ++
        rest := by rw [fromVersion, fromChain, fromNonce, fromIssued]; rfl
    _ = _ := by rw [List.append_assoc, ← expiration_lines rest]

/-- The first character tells the fields apart, and what trails them from both times. -/
theorem head_of_startsWith {l start : String} {c : Char} {rest : List Char} (starts : startsWith l start = true)
    (spelled : start.toList = c :: rest) : l.toList.head? = some c := by
  obtain ⟨tail, whole⟩ := List.isPrefixOf_iff_prefix.mp starts
  rw [← whole, spelled]
  rfl

theorem trailing_heads {resources : Bool} {ls : List String} (trails : trailing resources ls = .ok ()) :
    ∀ l ∈ ls, l.toList.head? ≠ some 'E' ∧ l.toList.head? ≠ some 'I' := by
  induction ls generalizing resources with
  | nil => simp
  | cons l rest ih =>
    have headed {c : Char} (head : l.toList.head? = some c) (notE : c ≠ 'E') (notI : c ≠ 'I') {late : Bool}
        (trails : trailing late rest = .ok ()) :
        ∀ other ∈ l :: rest, other.toList.head? ≠ some 'E' ∧ other.toList.head? ≠ some 'I' := by
      rw [List.forall_mem_cons, head]
      exact ⟨by simp [notE, notI], ih trails⟩
    rw [trailing] at trails
    split at trails
    next item =>
      exact headed (head_of_startsWith (Bool.and_eq_true_iff.mp item).2 rfl) (by decide) (by decide) trails
    split at trails
    next named =>
      rcases Bool.or_eq_true_iff.mp named with before | request
      · exact headed (head_of_startsWith before rfl) (by decide) (by decide) trails
      · exact headed (head_of_startsWith request rfl) (by decide) (by decide) trails
    split at trails
    next opens =>
      subst opens
      exact headed rfl (by decide) (by decide) trails
    split at trails
    next blank =>
      intro other member
      have empty : other = "" := by
        rcases List.mem_cons.mp member with rfl | later
        · exact blank.1
        · exact blank.2 other later
      subst empty
      decide
    · cases trails

/-- Fresh, and not past an expiration it states anywhere among its fields. -/
def Timely (text : String) (now : Nat) : Prop :=
  (∃ value, "Issued At: " ++ value ∈ fieldLines text) ∧
  (∀ value, "Issued At: " ++ value ∈ fieldLines text →
    ∃ iat, parseRfc3339Epoch value = some iat ∧ max now iat - min now iat ≤ Config.siweMaxAgeSecs) ∧
  ∀ value, "Expiration Time: " ++ value ∈ fieldLines text → ∃ exp, parseRfc3339Epoch value = some exp ∧ now < exp

theorem head_append {start value : String} {c : Char} {rest : List Char} (spelled : start.toList = c :: rest) :
    (start ++ value).toList.head? = some c := by
  rw [String.toList_append, spelled]
  rfl

theorem timed_field {text l : String} {msg : SiweMessage} (parsed : parseSiwe text = .ok msg)
    (timed : l.toList.head? = some 'E' ∨ l.toList.head? = some 'I') : l ∈ fieldLines text ↔
      l = "Issued At: " ++ msg.issuedAt ∨ ∃ value, msg.expirationTime = some value ∧ "Expiration Time: " ++ value = l := by
  obtain ⟨chain, rest, trails, whole⟩ := parseSiwe_fields parsed
  have apart {start value : String} {c : Char} {more : List Char} (spelled : start.toList = c :: more)
      (notE : c ≠ 'E') (notI : c ≠ 'I') : l ≠ start ++ value := by
    intro same
    rw [same, head_append spelled] at timed
    simp [notE, notI] at timed
  have untrailed : l ∉ rest := by
    intro late
    have heads := trailing_heads trails l late
    exact timed.elim heads.1 heads.2
  have uri : l ≠ "URI: " ++ msg.uri := apart rfl (by decide) (by decide)
  have version : l ≠ "Version: " ++ msg.version := apart rfl (by decide) (by decide)
  have chainId : l ≠ "Chain ID: " ++ chain := apart rfl (by decide) (by decide)
  have nonce : l ≠ "Nonce: " ++ msg.nonce := apart rfl (by decide) (by decide)
  simp only [whole, List.mem_append, List.mem_cons, List.not_mem_nil, uri, version, chainId, nonce, untrailed,
    Option.mem_toList, Option.map_eq_some_iff, false_or, or_false]

theorem issued_field {text : String} {msg : SiweMessage} (parsed : parseSiwe text = .ok msg) (value : String) :
    "Issued At: " ++ value ∈ fieldLines text ↔ value = msg.issuedAt := by
  have head : ("Issued At: " ++ value).toList.head? = some 'I' := head_append rfl
  have apart (other : String) : "Expiration Time: " ++ other ≠ "Issued At: " ++ value := by
    intro same
    rw [← same, head_append rfl] at head
    cases head
  simp only [timed_field parsed (.inr head), String.append_right_inj, apart, and_false, exists_const, or_false]

theorem expiration_field {text : String} {msg : SiweMessage} (parsed : parseSiwe text = .ok msg) (value : String) :
    "Expiration Time: " ++ value ∈ fieldLines text ↔ msg.expirationTime = some value := by
  have head : ("Expiration Time: " ++ value).toList.head? = some 'E' := head_append rfl
  have apart : "Expiration Time: " ++ value ≠ "Issued At: " ++ msg.issuedAt := by
    intro same
    rw [same, head_append rfl] at head
    cases head
  simp only [timed_field parsed (.inl head), String.append_right_inj, apart, false_or, exists_eq_right]

theorem checkTimestamps_ok_iff {text : String} {msg : SiweMessage} (parsed : parseSiwe text = .ok msg) (now : Nat) :
    Auth.checkTimestamps msg now = .ok () ↔ Timely text now := by
  have carried : Timely text now ↔
      (∃ iat, parseRfc3339Epoch msg.issuedAt = some iat ∧ max now iat - min now iat ≤ Config.siweMaxAgeSecs) ∧
      ∀ value, msg.expirationTime = some value → ∃ exp, parseRfc3339Epoch value = some exp ∧ now < exp := by
    simp only [Timely, issued_field parsed, expiration_field parsed, exists_eq, true_and, forall_eq]
  rw [carried, Auth.checkTimestamps]
  cases parseRfc3339Epoch msg.issuedAt with
  | none => simp
  | some iat =>
    simp only [Option.some.injEq, exists_eq_left']
    split
    next old => simp [Nat.not_le.mpr old]
    next fresh =>
      cases msg.expirationTime with
      | none => simp [Nat.le_of_not_lt fresh]
      | some value =>
        simp only [Option.some.injEq, forall_eq', Nat.le_of_not_lt fresh, true_and]
        cases parseRfc3339Epoch value with
        | none => simp
        | some exp => simp

end LetsEmbed.Siwe

namespace LetsEmbed.Auth
open Config Payments Siwe Systems

/-- The clock comes first, and is followed by more only where the message is timely. -/
def clockFirst (text : String) (past : List (Exchange Command Command.Reply)) (command : Command) : Prop :=
  past = [] ∧ command = .now ∨ ∃ now rest, past = rest ++ [⟨.now, now⟩] ∧ Timely text now

theorem verify_clockFirst {st : SiweState} {req : VerifyReq} :
    (verify st req).wp (Program.recording (clockFirst req.message)) (fun _ _ => True) (fun _ _ => True) [] := by
  rw [verify]
  split
  · exact (Handler.wp_throw _).mpr trivial
  next msg parsed =>
    refine (Handler.wp_bind _ _).mpr (require_rule (fun _ => ?_) fun _ => (Handler.wp_throw _).mpr trivial)
    refine (Handler.wp_bind _ _).mpr (require_rule (fun _ => ?_) fun _ => (Handler.wp_throw _).mpr trivial)
    refine (Handler.wp_bind _ _).mpr (require_rule (fun _ => ?_) fun _ => (Handler.wp_throw _).mpr trivial)
    apply Handler.wp_ask (.inl ⟨rfl, rfl⟩)
    intro now
    split
    · exact (Handler.wp_throw _).mpr trivial
    next passed =>
      have timely : Timely req.message now := (checkTimestamps_ok_iff parsed now).mp passed
      exact Handler.wp_recording_free fun late _ => .inr ⟨now, late, rfl, timely⟩

/-- Whatever the services answer, a sign-in that asks anything after the clock has
found its message timely at the time the clock gave. -/
theorem timely_past_clock (st : SiweState) (req : VerifyReq)
    (oracle : List (Exchange Command Command.Reply) → (command : Command) → command.Reply) :
    let history := ((verify st req).run.run (Program.converse oracle) []).2
    history = [] ∨ ∃ now rest, history = rest ++ [⟨.now, now⟩] ∧ (rest = [] ∨ Timely req.message now) := by
  intro history
  have disciplined : (verify st req).wp (Program.recording (clockFirst req.message)) (fun _ _ => True) (fun _ _ => True)
      [] := verify_clockFirst
  cases split : history with
  | nil => exact .inl rfl
  | cons newest earlier =>
    right
    have last : ((verify st req).run.run (Program.converse oracle) []).2 = [] ++ newest :: earlier := split
    rcases Handler.asked_of_wp disciplined oracle last with ⟨first, clock⟩ | ⟨now, rest, older, timely⟩
    · obtain ⟨command, reply⟩ := newest
      subst first clock
      exact ⟨reply, [], rfl, .inl rfl⟩
    · exact ⟨now, newest :: rest, by rw [older]; rfl, .inr timely⟩

section Example

def earlySiwe : String :=
  "a wants you to sign in with your Ethereum account:\n0\n\nURI: u\nVersion: 1\nChain ID: 1\nNonce: n\n" ++
    "Issued At: 2026-07-04T00:00:00Z\nNot Before: 2027-07-04T00:00:00Z"

/-- A message that is not to be used for another year signs in today. -/
theorem not_before_ignored :
    let st : SiweState := ⟨⟨id, fun _ _ _ => true, "", "", "", "", "a"⟩, 1, fun _ _ => .ok "0"⟩
    let w : World := ⟨fun _ => none, [], fun key => key = "nonce:n", fun _ => {}⟩
    let now := 1_783_123_200
    let oracle (_ : List (Exchange Command Command.Reply)) (command : Command) : command.Reply :=
      (serve w command ⟨.none, now, .failed⟩).1
    "Not Before: " ++ "2027-07-04T00:00:00Z" ∈ fieldLines earlySiwe ∧
      parseRfc3339Epoch "2027-07-04T00:00:00Z" = some (now + 365 * 86_400) ∧
      ((verify st ⟨earlySiwe, ""⟩).run.run (Program.converse oracle) []).1 =
        .ok (.response 200 (.session "0" now (now + sessionTtlSecs))) := by
  refine ⟨by decide +kernel, by decide +kernel, by decide +kernel⟩

end Example

end LetsEmbed.Auth
