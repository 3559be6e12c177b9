import Mathlib.Data.List.DropRight

/-! Resolving a reference against a page of a special scheme, as browsers do: the
text is trimmed, tabs and line breaks inside it are dropped, and two slashes of
either kind in front start an authority. -/

namespace Systems.Reference

def isDropped (c : Char) : Bool := c = '\t' || c = '\n' || c = '\r'

/-- C0 controls and the space. -/
def isTrimmed (c : Char) : Bool := c.toNat ≤ 0x20

def isSlash (c : Char) : Bool := c = '/' || c = '\\'

/-- What is left of text whose front is not trimmed. -/
def tail (text : List Char) : List Char := (text.rdropWhile isTrimmed).filter (!isDropped ·)

def cleaned (text : List Char) : List Char := tail (text.dropWhile isTrimmed)

def isSchemeChar (c : Char) : Bool := c.isAlphanum || c = '+' || c = '-' || c = '.'

def hasScheme : List Char → Bool
  | [] => false
  | c :: text => c.isAlpha && (text.dropWhile isSchemeChar).head? = some ':'

/-- More slashes in front of an authority do not count. -/
def authority (text : List Char) : List Char :=
  (text.dropWhile isSlash).takeWhile fun c => !isSlash c && c != '?' && c != '#'

/-- Which origin an authority stands for under the page's scheme, and which one a
reference with a scheme of its own, if it parses at all. -/
structure Browser (origin : Type*) where
  named : List Char → Option origin
  absolute : List Char → Option origin

def relative {origin : Type*} (browser : Browser origin) (page : origin) : List Char → Option origin
  | first :: second :: rest => if isSlash first && isSlash second then browser.named (authority rest) else some page
  | _ => some page

def resolve {origin : Type*} (browser : Browser origin) (page : origin) (reference : List Char) : Option origin :=
  let text := cleaned reference
  if hasScheme text then browser.absolute text else relative browser page text

variable {c : Char} {text gap rest : List Char}

theorem isTrimmed_of_isDropped (dropped : isDropped c = true) : isTrimmed c = true := by
  simp only [isDropped, Bool.or_eq_true, decide_eq_true_eq] at dropped
  rcases dropped with (rfl | rfl) | rfl <;> decide

theorem rdropWhile_cons (c : Char) (text : List Char) : (c :: text).rdropWhile isTrimmed =
    if text.rdropWhile isTrimmed = [] ∧ isTrimmed c = true then [] else c :: text.rdropWhile isTrimmed := by
  simp only [List.rdropWhile, List.reverse_cons, List.dropWhile_append, List.reverse_eq_nil_iff, List.isEmpty_iff]
  by_cases empty : text.reverse.dropWhile isTrimmed = []
  · simp only [empty, true_and, if_true, List.reverse_nil]
    cases trimmed : isTrimmed c <;> simp [trimmed]
  · simp [empty]

theorem tail_dropped (dropped : isDropped c = true) : tail (c :: text) = tail text := by
  rw [tail, rdropWhile_cons]
  split
  next emptied => rw [tail, emptied.1]
  · rw [List.filter_cons_of_neg (by simp [dropped]), tail]

theorem tail_kept (kept : isTrimmed c = false) : tail (c :: text) = c :: tail text := by
  have stays : isDropped c = false := by
    cases dropped : isDropped c with
    | false => rfl
    | true => exact (isTrimmed_of_isDropped dropped).symm.trans kept
  rw [tail, rdropWhile_cons, if_neg (by simp [kept]), List.filter_cons_of_pos (by simp [stays]), tail]

theorem tail_control (stays : isDropped c = false) : tail (c :: text) = [] ∨ tail (c :: text) = c :: tail text := by
  rw [tail, rdropWhile_cons]
  split
  · exact .inl rfl
  · exact .inr (by rw [List.filter_cons_of_pos (by simp [stays]), tail])

theorem tail_gap (dropped : ∀ c ∈ gap, isDropped c = true) : tail (gap ++ rest) = tail rest := by
  induction gap with
  | nil => rfl
  | cons c gap ih =>
    rw [List.cons_append, tail_dropped (dropped c List.mem_cons_self)]
    exact ih fun c member => dropped c (List.mem_cons_of_mem _ member)

theorem cleaned_rooted : cleaned ('/' :: text) = '/' :: tail text := tail_kept (by decide)

section Rooted
variable {origin : Type*} {browser : Browser origin} {page : origin}

theorem resolve_rooted : resolve browser page ('/' :: text) = relative browser page ('/' :: tail text) := by
  rw [resolve, cleaned_rooted]
  rfl

/-- Two slashes with nothing but dropped characters between them name an origin. -/
theorem resolve_gap (dropped : ∀ c ∈ gap, isDropped c = true) :
    resolve browser page ('/' :: (gap ++ '/' :: rest)) = browser.named (authority (tail rest)) := by
  rw [resolve_rooted, tail_gap dropped, tail_kept (by decide)]
  rfl

/-- A rooted reference whose next character is no slash stays with its page. -/
theorem resolve_path (path : ∀ c, (text.dropWhile isDropped).head? = some c → isSlash c = false) :
    resolve browser page ('/' :: text) = some page := by
  have gone : ∀ c ∈ text.takeWhile isDropped, isDropped c = true := fun c member => List.mem_takeWhile_imp member
  have rest : tail text = tail (text.dropWhile isDropped) :=
    (congrArg tail List.takeWhile_append_dropWhile).symm.trans (tail_gap gone)
  rw [resolve_rooted, rest]
  cases left : text.dropWhile isDropped with
  | nil => rfl
  | cons c more =>
    have plain : isSlash c = false := path c (by rw [left]; rfl)
    have stays : isDropped c = false := by
      have head := List.head?_dropWhile_not isDropped text
      simpa [left] using head
    rcases @tail_control c more stays with emptied | kept
    · rw [emptied]
      rfl
    · rw [kept]
      exact if_neg (by simp [plain])

end Rooted
end Systems.Reference
