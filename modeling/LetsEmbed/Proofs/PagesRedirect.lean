import LetsEmbed.Pages
import LetsEmbed.Systems.Reference

/-! Where signing in leads. The check on `next` looks at the text, while a browser
first drops tabs and line breaks, so two slashes that are only that far apart pass
the check and still start an authority. -/

namespace LetsEmbed.Pages
open Text Systems Systems.Reference

/-- The parameter hides two slashes in front, with only dropped characters between. -/
def Smuggles (next : Option String) (gap rest : List Char) : Prop :=
  ∃ text, next = some text ∧ text.toList = '/' :: (gap ++ '/' :: rest) ∧ gap ≠ [] ∧
    (∀ c ∈ gap, isDropped c = true) ∧ '\\' ∉ text.toList

/-- The text is rooted, and its second character is no slash. -/
def Rooted (text : String) (rest : List Char) : Prop :=
  text.toList = '/' :: rest ∧ rest.head? ≠ some '/' ∧ '\\' ∉ text.toList

theorem isRefused_eq_false {text : String} : isRefused text = false ↔ ∃ rest, Rooted text rest := by
  unfold isRefused startsWith Rooted
  cases chars : text.toList with
  | nil => simp
  | cons first rest =>
    by_cases slash : first = '/'
    · subst slash
      cases rest with
      | nil => simp
      | cons second rest => simp [List.isPrefixOf, @eq_comm Char '/' second]
    · simp [slash, Ne.symm slash]

theorem Smuggles.rooted {next : Option String} {gap rest : List Char} (smuggles : Smuggles next gap rest) :
    ∃ text, next = some text ∧ Rooted text (gap ++ '/' :: rest) := by
  obtain ⟨text, named, rooted, filled, dropped, clean⟩ := smuggles
  refine ⟨text, named, rooted, ?_, clean⟩
  cases gap with
  | nil => exact (filled rfl).elim
  | cons c gap =>
    intro same
    cases same
    cases dropped '/' List.mem_cons_self

theorem nextUrl_of_rooted {text : String} {rest : List Char} (rooted : Rooted text rest) : nextUrl (some text) = text := by
  have filled : text ≠ "" := by
    rintro rfl
    cases rooted.1
  simp only [nextUrl, Option.getD_some, if_neg filled, isRefused_eq_false.mpr ⟨rest, rooted⟩, Bool.false_eq_true, if_false]

theorem nextUrl_cases (next : Option String) :
    nextUrl next = "/" ∨ ∃ text rest, next = some text ∧ nextUrl next = text ∧ Rooted text rest := by
  cases next with
  | none => exact .inl (by decide)
  | some text =>
    cases refused : isRefused text with
    | false =>
      obtain ⟨rest, rooted⟩ := isRefused_eq_false.mp refused
      exact .inr ⟨text, rest, rfl, nextUrl_of_rooted rooted, rooted⟩
    | true =>
      refine .inl ?_
      by_cases empty : text = ""
      · subst empty
        decide
      · simp [nextUrl, empty, refused]

/-- Signing in stays on the site exactly when no parameter smuggles an authority in,
or the one it smuggles is the site itself. -/
theorem redirect_confined_iff {origin : Type*} (browser : Browser origin) (page : origin) (next : Option String) :
    resolve browser page (nextUrl next).toList = some page ↔
      ∀ gap rest, Smuggles next gap rest → browser.named (authority (tail rest)) = some page := by
  constructor
  · intro confined gap rest smuggles
    obtain ⟨text, rfl, rooted⟩ := smuggles.rooted
    obtain ⟨_, named, _, _, dropped, _⟩ := smuggles
    cases named
    rw [nextUrl_of_rooted rooted, rooted.1, resolve_gap dropped] at confined
    exact confined
  · intro harmless
    rcases nextUrl_cases next with fallback | ⟨text, rest, rfl, same, rooted⟩
    · rw [fallback]
      exact resolve_path (by simp)
    · rw [same, rooted.1]
      cases left : rest.dropWhile isDropped with
      | nil => exact resolve_path (by simp [left])
      | cons c more =>
        have split : rest = rest.takeWhile isDropped ++ c :: more := by
          rw [← left, List.takeWhile_append_dropWhile]
        have gone : ∀ c ∈ rest.takeWhile isDropped, isDropped c = true := fun c member => List.mem_takeWhile_imp member
        by_cases slash : c = '/'
        · subst slash
          rw [split, resolve_gap gone]
          refine harmless (rest.takeWhile isDropped) more ⟨text, rfl, ?_, ?_, gone, rooted.2.2⟩
          · rw [← split]
            exact rooted.1
          · intro none
            rw [none] at split
            exact rooted.2.1 (by rw [split]; rfl)
        · apply resolve_path
          intro other head
          rw [left] at head
          cases head
          have clean : c ≠ '\\' := by
            rintro rfl
            apply rooted.2.2
            rw [rooted.1, split]
            simp
          simp [isSlash, slash, clean]

/-- Names only, and no scheme of its own. -/
def byName : Browser String := ⟨fun text => some (String.ofList text), fun _ => none⟩

/-- A tab between the slashes. -/
theorem redirect_leaves_site :
    resolve byName "site.example" (nextUrl (some "/\t/evil.example")).toList = some "evil.example" := by decide

end LetsEmbed.Pages
