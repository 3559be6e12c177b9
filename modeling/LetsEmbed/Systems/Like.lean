import Mathlib.Data.List.Infix

/-! SQL's patterns. A percent sign stands for any run of characters, an underscore for
one character, and a backslash for the character behind it, with which no pattern
may end. Between two percent signs a text finds itself exactly if none of these
occurs in it; otherwise it finds something that it is not part of. -/

namespace Systems.Like

inductive Piece (α : Type*) where
  | run
  | one
  | exactly (a : α)

def isSpecial (c : Char) : Bool := c == '%' || c == '_' || c == '\\'

def pieces : List Char → Option (List (Piece Char))
  | [] => some []
  | '%' :: rest => (pieces rest).map (.run :: ·)
  | '_' :: rest => (pieces rest).map (.one :: ·)
  | '\\' :: c :: rest => (pieces rest).map (.exactly c :: ·)
  | ['\\'] => none
  | c :: rest => (pieces rest).map (.exactly c :: ·)

def accepts {α : Type*} [DecidableEq α] : List (Piece α) → List α → Bool
  | [], text => text.isEmpty
  | .run :: rest, text => text.tails.any (accepts rest)
  | .one :: rest, text => !text.isEmpty && accepts rest text.tail
  | .exactly a :: rest, text => text.head? == some a && accepts rest text.tail

def like (text pattern : List Char) : Bool := (pieces pattern).any (accepts · text)

section Pieces
variable {α : Type*} [DecidableEq α] {rest : List (Piece α)} {text part : List α} {a : α}

theorem accepts_run : accepts (.run :: rest) text = true ↔ ∃ suffix, suffix <:+ text ∧ accepts rest suffix = true := by
  rw [accepts, List.any_eq_true]
  simp only [List.mem_tails]

theorem accepts_exactly {b : α} : accepts (.exactly a :: rest) (b :: text) = true ↔ b = a ∧ accepts rest text = true := by
  rw [accepts, Bool.and_eq_true, beq_iff_eq, List.head?_cons, Option.some.injEq]
  rfl

/-- A text at the start, then anything. -/
theorem accepts_leading : accepts (part.map .exactly ++ [.run]) text = true ↔ part <+: text := by
  induction part generalizing text with
  | nil =>
    refine iff_of_true ?_ (List.nil_prefix)
    exact accepts_run.mpr ⟨[], List.nil_suffix, rfl⟩
  | cons a part ih =>
    cases text with
    | nil => simp [accepts]
    | cons b text =>
      rw [List.map_cons, List.cons_append, accepts_exactly, ih, List.cons_prefix_cons, @eq_comm _ a b]

theorem accepts_infix : accepts (.run :: part.map .exactly ++ [.run]) text = true ↔ part <:+: text := by
  rw [List.cons_append, accepts_run]
  simp only [accepts_leading]
  constructor
  · intro ⟨suffix, ends, begins⟩
    exact begins.isInfix.trans ends.isInfix
  · intro ⟨before, after, whole⟩
    refine ⟨part ++ after, ⟨before, ?_⟩, List.prefix_append part after⟩
    rw [← whole, List.append_assoc]

end Pieces

section Texts
variable {q text : List Char} {c filler : Char}

theorem pieces_plain {rest : List Char} (plain : isSpecial c = false) :
    pieces (c :: rest) = (pieces rest).map (.exactly c :: ·) := by
  simp only [isSpecial, Bool.or_eq_false_iff, beq_eq_false_iff_ne] at plain
  obtain ⟨⟨percent, underscore⟩, escape⟩ := plain
  rw [pieces]
  · exact percent
  · exact underscore
  · exact fun _ _ same => (escape same).elim
  · exact fun same => (escape same).elim

theorem pieces_text (plain : ∀ c ∈ q, isSpecial c = false) : pieces (q ++ ['%']) = some (q.map .exactly ++ [.run]) := by
  induction q with
  | nil => rfl
  | cons c q ih =>
    obtain ⟨first, others⟩ := List.forall_mem_cons.mp plain
    rw [List.cons_append, pieces_plain first, ih others]
    rfl

/-- A plain text finds where it occurs. -/
theorem like_plain (plain : ∀ c ∈ q, isSpecial c = false) : like text ('%' :: (q ++ ['%'])) = true ↔ q <:+: text := by
  rw [like, pieces, pieces_text plain]
  exact accepts_infix

/-- The shortest text found by what is typed, with the filler for any one character. A
backslash at the end escapes the percent sign behind it. -/
def sample (filler : Char) : List Char → List Char
  | [] => []
  | '%' :: rest => sample filler rest
  | '_' :: rest => filler :: sample filler rest
  | '\\' :: c :: rest => c :: sample filler rest
  | ['\\'] => ['%']
  | c :: rest => c :: sample filler rest

/-- Texts as they are read, character by character. -/
theorem reading {motive : List Char → Prop} (nil : motive []) (run : ∀ rest, motive rest → motive ('%' :: rest))
    (one : ∀ rest, motive rest → motive ('_' :: rest)) (escaped : ∀ c rest, motive rest → motive ('\\' :: c :: rest))
    (last : motive ['\\']) (plain : ∀ c rest, isSpecial c = false → motive rest → motive (c :: rest)) (q : List Char) :
    motive q := by
  induction q using sample.induct with
  | case1 => exact nil
  | case2 rest ih => exact run rest ih
  | case3 rest ih => exact one rest ih
  | case4 c rest ih => exact escaped c rest ih
  | case5 => exact last
  | case6 c rest percent underscore pair single ih =>
    have escape : c ≠ '\\' := by
      intro same
      cases rest with
      | nil => exact single same rfl
      | cons d rest => exact pair d rest same rfl
    apply plain c rest _ ih
    simp only [isSpecial, Bool.or_eq_false_iff, beq_eq_false_iff_ne]
    exact ⟨⟨percent, underscore⟩, escape⟩

theorem sample_plain (plain : isSpecial c = false) : sample filler (c :: q) = c :: sample filler q := by
  simp only [isSpecial, Bool.or_eq_false_iff, beq_eq_false_iff_ne] at plain
  obtain ⟨⟨percent, underscore⟩, escape⟩ := plain
  rw [sample]
  · exact percent
  · exact underscore
  · exact fun _ _ same => (escape same).elim
  · exact fun same => (escape same).elim

theorem sample_accepted (filler : Char) (q : List Char) :
    ∃ found, pieces (q ++ ['%']) = some found ∧ accepts found (sample filler q) = true := by
  induction q using reading with
  | nil => exact ⟨[.run], rfl, rfl⟩
  | run rest ih =>
    obtain ⟨found, parsed, accepted⟩ := ih
    exact ⟨.run :: found, by rw [List.cons_append, pieces, parsed]; rfl, accepts_run.mpr ⟨_, List.suffix_rfl, accepted⟩⟩
  | one rest ih =>
    obtain ⟨found, parsed, accepted⟩ := ih
    exact ⟨.one :: found, by rw [List.cons_append, pieces, parsed]; rfl, accepted⟩
  | escaped c rest ih =>
    obtain ⟨found, parsed, accepted⟩ := ih
    exact ⟨.exactly c :: found, by rw [List.cons_append, List.cons_append, pieces, parsed]; rfl,
      accepts_exactly.mpr ⟨rfl, accepted⟩⟩
  | last => exact ⟨[.exactly '%'], rfl, rfl⟩
  | plain c rest plain ih =>
    obtain ⟨found, parsed, accepted⟩ := ih
    refine ⟨.exactly c :: found, by rw [List.cons_append, pieces_plain plain, parsed]; rfl, ?_⟩
    rw [sample_plain plain]
    exact accepts_exactly.mpr ⟨rfl, accepted⟩

/-- Whatever stands before the shortest text is found with it. -/
theorem like_sample (before : List Char) : like (before ++ sample filler q) ('%' :: (q ++ ['%'])) = true := by
  obtain ⟨found, parsed, accepted⟩ := sample_accepted filler q
  rw [like, pieces, parsed]
  exact accepts_run.mpr ⟨_, List.suffix_append before _, accepted⟩

/-- Without a backslash in it a pattern accepts itself: what is special stands for anything. -/
theorem pieces_self (unescaped : '\\' ∉ q) : ∃ found, pieces (q ++ ['%']) = some found ∧ accepts found q = true := by
  induction q using reading with
  | nil => exact ⟨[.run], rfl, rfl⟩
  | run rest ih =>
    obtain ⟨found, parsed, accepted⟩ := ih (List.not_mem_of_not_mem_cons unescaped)
    exact ⟨.run :: found, by rw [List.cons_append, pieces, parsed]; rfl, accepts_run.mpr ⟨rest, List.suffix_cons _ _, accepted⟩⟩
  | one rest ih =>
    obtain ⟨found, parsed, accepted⟩ := ih (List.not_mem_of_not_mem_cons unescaped)
    exact ⟨.one :: found, by rw [List.cons_append, pieces, parsed]; rfl, accepted⟩
  | escaped c rest ih => exact (unescaped List.mem_cons_self).elim
  | last => exact (unescaped List.mem_cons_self).elim
  | plain c rest plain ih =>
    obtain ⟨found, parsed, accepted⟩ := ih (List.not_mem_of_not_mem_cons unescaped)
    exact ⟨.exactly c :: found, by rw [List.cons_append, pieces_plain plain, parsed]; rfl, accepts_exactly.mpr ⟨rfl, accepted⟩⟩

theorem like_self (unescaped : '\\' ∉ q) : like q ('%' :: (q ++ ['%'])) = true := by
  obtain ⟨found, parsed, accepted⟩ := pieces_self unescaped
  rw [like, pieces, parsed]
  exact accepts_run.mpr ⟨q, List.suffix_rfl, accepted⟩

/-- Every backslash but an escaped one is gone. -/
theorem count_sample (letter : isSpecial filler = false) :
    (sample filler q).count '\\' ≤ q.count '\\' ∧ ('\\' ∈ q → (sample filler q).count '\\' < q.count '\\') := by
  induction q using reading with
  | nil => exact ⟨Nat.le_refl 0, fun member => by cases member⟩
  | run rest ih =>
    rw [sample, List.count_cons_of_ne (by decide)]
    exact ⟨ih.1, fun member => ih.2 (List.mem_of_ne_of_mem (by decide) member)⟩
  | one rest ih =>
    have other : filler ≠ '\\' := by
      intro same
      rw [same] at letter
      cases letter
    rw [sample, List.count_cons_of_ne other, List.count_cons_of_ne (by decide)]
    exact ⟨ih.1, fun member => ih.2 (List.mem_of_ne_of_mem (by decide) member)⟩
  | escaped c rest ih =>
    have fewer : (sample filler ('\\' :: c :: rest)).count '\\' < ('\\' :: c :: rest).count '\\' := by
      rw [sample, List.count_cons_self, List.count_cons, List.count_cons]
      have le := ih.1
      omega
    exact ⟨Nat.le_of_lt fewer, fun _ => fewer⟩
  | last => exact ⟨Nat.zero_le 1, fun _ => Nat.zero_lt_one⟩
  | plain c rest plain ih =>
    have other : c ≠ '\\' := by
      intro same
      rw [same] at plain
      cases plain
    rw [sample_plain plain, List.count_cons_of_ne other, List.count_cons_of_ne other]
    exact ⟨ih.1, fun member => ih.2 (List.mem_of_ne_of_mem other.symm member)⟩

/-- Without a backslash, nothing special is left. -/
theorem sample_unescaped (letter : isSpecial filler = false) (unescaped : '\\' ∉ q) :
    ∀ c ∈ sample filler q, isSpecial c = false := by
  induction q using reading with
  | nil => exact List.forall_mem_nil _
  | run rest ih => exact ih (List.not_mem_of_not_mem_cons unescaped)
  | one rest ih => exact List.forall_mem_cons.mpr ⟨letter, ih (List.not_mem_of_not_mem_cons unescaped)⟩
  | escaped c rest ih => exact (unescaped List.mem_cons_self).elim
  | last => exact (unescaped List.mem_cons_self).elim
  | plain c rest plain ih =>
    rw [sample_plain plain]
    exact List.forall_mem_cons.mpr ⟨plain, ih (List.not_mem_of_not_mem_cons unescaped)⟩

/-- The shortest text is not what was typed, nor does it contain that. -/
theorem not_infix_sample (letter : isSpecial filler = false) (special : ∃ c ∈ q, isSpecial c = true) :
    ¬q <:+: filler :: sample filler q := by
  intro part
  by_cases escapes : '\\' ∈ q
  · have other : filler ≠ '\\' := by
      intro same
      rw [same] at letter
      cases letter
    have kept := part.sublist.count_le '\\'
    rw [List.count_cons_of_ne other] at kept
    exact Nat.not_lt.mpr kept ((count_sample letter).2 escapes)
  · obtain ⟨c, member, special⟩ := special
    have unescaped : ∀ d ∈ filler :: sample filler q, isSpecial d = false :=
      List.forall_mem_cons.mpr ⟨letter, sample_unescaped letter escapes⟩
    cases special.symm.trans (unescaped c (part.subset member))

theorem length_sample_le : (sample filler q).length ≤ q.length := by
  induction q using reading with
  | nil => exact Nat.le_refl 0
  | run rest ih => exact Nat.le_succ_of_le ih
  | one rest ih => exact Nat.succ_le_succ ih
  | escaped c rest ih => exact Nat.le_succ_of_le (Nat.succ_le_succ ih)
  | last => exact Nat.le_refl 1
  | plain c rest plain ih =>
    rw [sample_plain plain]
    exact Nat.succ_le_succ ih

theorem length_sample_lt (special : ∃ c ∈ q, isSpecial c = true) (unfilled : filler ∉ sample filler q)
    (percent : '%' ∉ sample filler q) : (sample filler q).length < q.length := by
  induction q using reading with
  | nil =>
    obtain ⟨c, member, _⟩ := special
    cases member
  | run rest ih => exact Nat.lt_succ_of_le (@length_sample_le rest filler)
  | one rest ih => exact (unfilled List.mem_cons_self).elim
  | escaped c rest ih => exact Nat.succ_lt_succ (Nat.lt_succ_of_le length_sample_le)
  | last => exact (percent List.mem_cons_self).elim
  | plain c rest plain ih =>
    rw [sample_plain plain] at unfilled percent ⊢
    obtain ⟨d, member, kind⟩ := special
    have inside : d ∈ rest := by
      apply List.mem_of_ne_of_mem _ member
      intro same
      rw [same] at kind
      cases plain.symm.trans kind
    exact Nat.succ_lt_succ (ih ⟨d, inside, kind⟩ (List.not_mem_of_not_mem_cons unfilled) (List.not_mem_of_not_mem_cons percent))

end Texts

/-- Letters made equal whatever their case. What is special in a pattern stands for
itself alone. -/
structure Folding where
  fold : Char → Char
  special : ∀ c d, isSpecial d = true → (fold c = d ↔ c = d)

namespace Folding
variable (folding : Folding) {q : List Char} {c filler : Char}

/-- `ILIKE` -/
def ilike (text pattern : List Char) : Bool := like (text.map folding.fold) (pattern.map folding.fold)

theorem isSpecial_fold (c : Char) : isSpecial (folding.fold c) = isSpecial c := by
  cases kind : isSpecial c with
  | true => rw [(folding.special c c kind).mpr rfl, kind]
  | false =>
    rw [Bool.eq_false_iff]
    intro special
    have same := (folding.special c _ special).mp rfl
    rw [same, special] at kind
    cases kind

theorem map_sample : (sample filler q).map folding.fold = sample (folding.fold filler) (q.map folding.fold) := by
  have percent := (folding.special '%' '%' rfl).mpr rfl
  have underscore := (folding.special '_' '_' rfl).mpr rfl
  have escape := (folding.special '\\' '\\' rfl).mpr rfl
  induction q using reading with
  | nil => rfl
  | run rest ih =>
    rw [List.map_cons, percent]
    exact ih
  | one rest ih =>
    rw [List.map_cons, underscore]
    exact congrArg _ ih
  | escaped c rest ih =>
    rw [List.map_cons, List.map_cons, escape]
    exact congrArg _ ih
  | last =>
    rw [List.map_singleton, escape]
    exact congrArg (fun c => [c]) percent
  | plain c rest plain ih =>
    have still : isSpecial (folding.fold c) = false := (folding.isSpecial_fold c).trans plain
    rw [sample_plain plain, List.map_cons, List.map_cons, sample_plain still, ih]

theorem map_between : ('%' :: (q ++ ['%'])).map folding.fold = '%' :: (q.map folding.fold ++ ['%']) := by
  rw [List.map_cons, List.map_append, List.map_singleton, (folding.special '%' '%' rfl).mpr rfl]

/-- A plain text finds where it occurs, in whatever case. -/
theorem ilike_plain {text : List Char} (plain : ∀ c ∈ q, isSpecial c = false) :
    folding.ilike text ('%' :: (q ++ ['%'])) = true ↔ q.map folding.fold <:+: text.map folding.fold := by
  rw [ilike, map_between]
  apply like_plain
  intro d member
  obtain ⟨c, inside, same⟩ := List.mem_map.mp member
  rw [← same, isSpecial_fold]
  exact plain c inside

theorem ilike_sample (before : List Char) : folding.ilike (before ++ sample filler q) ('%' :: (q ++ ['%'])) = true := by
  rw [ilike, map_between, List.map_append, map_sample]
  exact like_sample _

theorem ilike_self (unescaped : '\\' ∉ q) : folding.ilike q ('%' :: (q ++ ['%'])) = true := by
  rw [ilike, map_between]
  apply like_self
  intro member
  obtain ⟨c, inside, same⟩ := List.mem_map.mp member
  rw [(folding.special c '\\' rfl).mp same] at inside
  exact unescaped inside

theorem not_infix_sample (letter : isSpecial filler = false) (special : ∃ c ∈ q, isSpecial c = true) :
    ¬q.map folding.fold <:+: (filler :: sample filler q).map folding.fold := by
  rw [List.map_cons, map_sample]
  apply Like.not_infix_sample ((folding.isSpecial_fold filler).trans letter)
  obtain ⟨c, member, special⟩ := special
  exact ⟨folding.fold c, List.mem_map_of_mem member, (folding.isSpecial_fold c).trans special⟩

theorem toLower_special {c d : Char} (special : isSpecial d = true) : c.toLower = d ↔ c = d := by
  have code : d.toNat = 37 ∨ d.toNat = 95 ∨ d.toNat = 92 := by
    simp only [isSpecial, Bool.or_eq_true, beq_iff_eq] at special
    rcases special with (rfl | rfl) | rfl <;> decide
  unfold Char.toLower
  split
  next upper =>
    have low : 65 ≤ c.toNat := upper.1
    have high : c.toNat ≤ 90 := upper.2
    apply iff_of_false
    · intro same
      have lowered : (c.val + ('a'.val - 'A'.val)).toNat = d.toNat := congrArg Char.toNat same
      rw [UInt32.toNat_add] at lowered
      change (c.toNat + 32) % 2 ^ 32 = d.toNat at lowered
      omega
    · intro same
      rw [same] at low high
      omega
  next => rfl

/-- Nothing but the letters of ASCII has two cases. -/
def ascii : Folding := ⟨Char.toLower, fun _ _ => toLower_special⟩

end Folding

end Systems.Like
