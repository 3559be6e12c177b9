import Mathlib.Data.List.TakeWhile

/-! Where a URL's host ends. What follows the scheme is read up to the first
slash, question mark or number sign, and userinfo is dropped up to the last at
sign, so text appended to a base URL may still move or extend its host. This is the
rule for where the host stands, not all of WHATWG's parser: a port stays part of what is
found, letters keep their case, and a backslash is a character like any other. -/

namespace Systems.Authority

def inside (c : Char) : Bool := c != '/' && c != '?' && c != '#'

/-- The characters that text after a base contributes to the authority. -/
def segment (text : List Char) : List Char := text.takeWhile inside

/-- What follows the last at sign, or everything when there is none. -/
def dropUserinfo (text : List Char) : List Char := (text.reverse.takeWhile (· != '@')).reverse

def host (text : List Char) : List Char := dropUserinfo (segment text)

variable {base text : List Char}

theorem dropUserinfo_of_not_mem (plain : '@' ∉ text) : dropUserinfo text = text := by
  have all : ∀ c ∈ text.reverse, (c != '@') = true := by
    intro c member
    simp only [bne_iff_ne, ne_eq]
    rintro rfl
    exact plain (List.mem_reverse.mp member)
  rw [dropUserinfo, List.takeWhile_eq_self_iff.mpr all, List.reverse_reverse]

theorem dropUserinfo_append (marked : '@' ∈ text) : dropUserinfo (base ++ text) = dropUserinfo text := by
  have short : (text.reverse.takeWhile (· != '@')).length ≠ text.reverse.length := by
    intro full
    have whole : text.reverse.takeWhile (· != '@') = text.reverse :=
      (List.takeWhile_prefix _).eq_of_length full
    have clean := List.takeWhile_eq_self_iff.mp whole '@' (List.mem_reverse.mpr marked)
    simp at clean
  rw [dropUserinfo, List.reverse_append, List.takeWhile_append, if_neg short]
  rfl

/-- The host of text appended to a base that is itself only a host. -/
theorem host_append (clean : ∀ c ∈ base, inside c = true) (plain : '@' ∉ base) :
    host (base ++ text) =
      if '@' ∈ segment text then dropUserinfo (segment text) else base ++ segment text := by
  have split : segment (base ++ text) = base ++ segment text := List.takeWhile_append_of_pos clean
  rw [host, split]
  split
  next marked => exact dropUserinfo_append marked
  next unmarked => exact dropUserinfo_of_not_mem (by simp [plain, unmarked])

end Systems.Authority
