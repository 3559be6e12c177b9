import LetsEmbed.LoginPage
import LetsEmbed.Proofs.SiweDates
import LetsEmbed.Proofs.SiweRendering

/-! The message of the login page is one the worker parses, and the time in it is the
browser's. -/

namespace LetsEmbed.LoginPage
open Siwe Systems Text

section Dates
variable {width n ms : Nat}

theorem digitChar_decimal : ∀ digit < 10, (toDigit 10 (Nat.digitChar digit)).isSome = true ∧
    digitOf 10 (Nat.digitChar digit) = digit := by decide

/-- The digits are a numeral, of the number where it fits. -/
def numeral (width n : Nat) : Numeral width where
  digits := (digits width n).toList
  size := by rw [digits, String.toList_ofList, List.length_map, Radix.length_spelled]
  decimal := by
    intro c member
    rw [digits, String.toList_ofList] at member
    obtain ⟨digit, spelled, rfl⟩ := List.mem_map.mp member
    exact (digitChar_decimal digit (Radix.spelled_lt (by decide) digit spelled)).1

theorem numeral_value (fits : n < 10 ^ width) : (numeral width n).value = n := by
  have read : ((digits width n).toList).map (digitOf 10) = Radix.spelled 10 width n := by
    rw [digits, String.toList_ofList, List.map_map]
    nth_rewrite 2 [← List.map_id (Radix.spelled 10 width n)]
    apply List.map_congr_left
    intro digit spelled
    exact (digitChar_decimal digit (Radix.spelled_lt (by decide) digit spelled)).2
  rw [Numeral.value]
  change Radix.value 10 ((digits width n).toList.map (digitOf 10)) = n
  rw [read, Radix.value_spelled, Nat.mod_eq_of_lt fits]

def day (ms : Nat) : Nat × Nat × Nat := Calendar.civil (Calendar.ordinal 1970 1 1 + ms / 1000 / 86_400)

def stamp (ms : Nat) : Stamp :=
  ⟨numeral 4 (day ms).1, numeral 2 (day ms).2.1, numeral 2 (day ms).2.2, false, numeral 2 (ms / 1000 / 3600 % 24),
    numeral 2 (ms / 1000 / 60 % 60), numeral 2 (ms / 1000 % 60), some ⟨2, numeral 3 (ms % 1000)⟩, .zulu false⟩

/-- The first millisecond of the year 10000. -/
def farthest : Nat := 253_402_300_800_000

theorem stamp_year (near : ms < farthest) : (day ms).1 < 10_000 := by
  apply Calendar.civil_year
  have centuries := Calendar.before_yearLength 10_000
  have epoch : Calendar.ordinal 1970 1 1 = 719_528 := epoch_ordinal
  unfold farthest at near
  omega

theorem toISOString_toList (near : ms < farthest) : (toISOString ms).toList = (stamp ms).chars := by
  have dash : "-".toList = ['-'] := by decide
  have letter : "T".toList = ['T'] := by decide
  have colon : ":".toList = [':'] := by decide
  have dot : ".".toList = ['.'] := by decide
  have zulu : "Z".toList = ['Z'] := by decide
  have early := stamp_year near
  rw [day] at early
  simp [toISOString, stamp, day, Stamp.chars, Stamp.front, Stamp.fractionChars, Offset.chars, numeral, early, dash, letter,
    colon, dot, zulu]

theorem toISOString_parses (near : ms < farthest) : parseRfc3339Epoch (toISOString ms) = some (ms / 1000) := by
  obtain ⟨⟨first, last, start, stop⟩, counted⟩ : Calendar.Exists (day ms).1 (day ms).2.1 (day ms).2.2 ∧
      Calendar.ordinal (day ms).1 (day ms).2.1 (day ms).2.2 = Calendar.ordinal 1970 1 1 + ms / 1000 / 86_400 := by
    rw [day]
    exact Calendar.civil_date _
  have length := @Calendar.monthLength_bounds (day ms).1 ((day ms).2.1 - 1)
  have early := stamp_year near
  have year : (stamp ms).year.value = (day ms).1 := numeral_value (by omega)
  have month : (stamp ms).month.value = (day ms).2.1 := numeral_value (by omega)
  have date : (stamp ms).day.value = (day ms).2.2 := numeral_value (by omega)
  have hour : (stamp ms).hour.value = ms / 1000 / 3600 % 24 := numeral_value (by omega)
  have minute : (stamp ms).minute.value = ms / 1000 / 60 % 60 := numeral_value (by omega)
  have second : (stamp ms).second.value = ms / 1000 % 60 := numeral_value (by omega)
  have ranged : (stamp ms).Ranged := ⟨by omega, by omega, trivial⟩
  rw [parse_stamp (bytes_iff.mpr (toISOString_toList near)) ranged (by omega) (by omega)]
  have instant : (stamp ms).instant = (ms / 1000 : Nat) := by
    have zulu : (stamp ms).offset.secs = 0 := rfl
    rw [Stamp.instant, year, month, date, hour, minute, second, zulu, Calendar.days, counted]
    omega
  rw [instant, if_neg (by omega), Int.toNat_natCast]

theorem digits_oneLine (width n : Nat) : OneLine (digits width n) := by
  have decimal {c : Char} (member : c ∈ (digits width n).toList) : (toDigit 10 c).isSome = true := (numeral width n).decimal c member
  exact ⟨fun found => absurd (decimal found) (by decide), fun found => absurd (decimal found) (by decide)⟩

theorem toISOString_oneLine (ms : Nat) : OneLine (toISOString ms) := by
  have year (n : Nat) : OneLine (if n < 10_000 then digits 4 n else "+" ++ digits 6 n) := by
    split
    · exact digits_oneLine ..
    · exact oneLine_append (by decide) (digits_oneLine ..)
  have next {s mark : String} (before : OneLine s) (plain : OneLine mark) (width n : Nat) : OneLine (s ++ mark ++ digits width n) :=
    oneLine_append (oneLine_append before plain) (digits_oneLine width n)
  simp only [toISOString]
  refine oneLine_append ?_ (by decide)
  exact next (next (next (next (next (next (year _) (by decide) _ _) (by decide) _ _) (by decide) _ _) (by decide) _ _) (by decide) _ _)
    (by decide) _ _

end Dates

section Message
variable {page : Page} {addr nonce issuedAt : String}

/-- What the worker makes of the page's message. -/
def parsed (page : Page) (addr nonce issuedAt : String) : SiweMessage :=
  ⟨page.host, addr, some "Sign in to lets_embed", page.origin ++ "/user/login", "1", page.chainId, nonce, issuedAt, none⟩

theorem parsed_renderable (host : page.host ≠ "") (address : addr ≠ "")
    (plain : ∀ value ∈ [page.host, page.origin, addr, nonce, issuedAt], OneLine value) : Renderable (parsed page addr nonce issuedAt) where
  domain := host
  address := address
  fields := by
    simp only [List.forall_mem_cons] at plain
    obtain ⟨hostLine, originLine, addrLine, nonceLine, issuedLine, _⟩ := plain
    simp only [parsed, Option.toList_none, List.append_nil, List.forall_mem_cons]
    exact ⟨hostLine, addrLine, oneLine_append originLine (by decide), by decide, nonceLine, issuedLine, List.forall_mem_nil _⟩
  statement := by
    intro statement stated
    cases stated
    decide +kernel
  first := by
    intro statement stated
    cases stated
    decide +kernel
  chainId := Nat.lt_trans page.exact (by decide)

theorem message_parses (host : page.host ≠ "") (address : addr ≠ "")
    (plain : ∀ value ∈ [page.host, page.origin, addr, nonce, issuedAt], OneLine value) :
    parseSiwe (message page addr nonce issuedAt) = .ok (parsed page addr nonce issuedAt) := by
  have renderable := parsed_renderable host address plain
  have statement : split '\n' "Sign in to lets_embed" = ["Sign in to lets_embed"] := by decide +kernel
  have written : message page addr nonce issuedAt =
      text ((messageLines (parsed page addr nonce issuedAt) false).map fun l => (l, false)) := by
    rw [text, List.map_map, messageLines, parsed, statementPart, statement]
    rfl
  have kept (ls : List String) : (ls.map fun l => (l, false)).map (·.1) = ls := by
    rw [List.map_map]
    exact List.map_id _
  have whole : lines (message page addr nonce issuedAt) = messageLines (parsed page addr nonce issuedAt) false ++ [] := by
    rw [written, lines_text (by simp [messageLines]), kept, List.append_nil]
    rw [kept]
    exact messageLines_oneLine renderable
  rw [parse_lines renderable whole fun _ _ impossible => by cases impossible]
  rfl

end Message

end LetsEmbed.LoginPage
