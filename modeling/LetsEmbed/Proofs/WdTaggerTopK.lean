import LetsEmbed.WdTagger
import LetsEmbed.Systems.Best
import Mathlib.Data.List.Perm.Basic

/-! The heap holds the best of the entries seen so far, whatever order they come in.
Scores that the operators call equal may still differ in the total order, so that the
heap is ranked by what its scores say. -/

namespace LetsEmbed.WdTagger
open Pipeline Systems

variable {k : Nat} {heap seen left : List Entry} {entry least : Entry}
  {vec : List F32} {generalThreshold characterThreshold : F32} {tags : List Tag}

def rank (entry : Entry) : Int := (ofLex entry).1.value

theorem rank_le (ordered : least ≤ entry) : rank least ≤ rank entry := by
  cases Prod.Lex.le_iff.mp ordered with
  | inl below => exact F32.value_le (le_of_lt below)
  | inr tied => exact le_of_eq (congrArg F32.value tied.1)

theorem offer_best (best : Best rank k seen heap left) (number : (ofLex entry).1.isNan = false)
    (numbers : ∀ held ∈ heap, (ofLex held).1.isNan = false) :
    ∃ left, Best rank k (entry :: seen) (offer k heap entry) left := by
  rw [offer]
  split
  next short => exact ⟨left, best.keep short⟩
  next notShort =>
    have full : k ≤ heap.length := Nat.le_of_not_lt notShort
    split
    next least peeked =>
      obtain ⟨member, lowest⟩ := List.min?_eq_some_iff.mp peeked
      have minimal : ∀ held ∈ heap, rank least ≤ rank held := fun held inside => rank_le (lowest held inside)
      have compared := F32.gt_iff number (numbers least member)
      split
      next above => exact ⟨least :: left, best.replace full member minimal (le_of_lt (compared.mp above))⟩
      next notAbove =>
        have below : rank entry ≤ rank least := Int.not_lt.mp (mt compared.mpr notAbove)
        exact ⟨entry :: left, best.refuse full fun held inside => le_trans below (minimal held inside)⟩
    next empty =>
      rw [List.min?_eq_none_iff.mp empty] at best full ⊢
      exact ⟨entry :: left, best.refuse full (List.forall_mem_nil _)⟩

theorem foldl_best {entries : List Entry} (best : Best rank k seen heap left)
    (numbers : ∀ entry ∈ entries ++ seen, (ofLex entry).1.isNan = false) :
    ∃ left, Best rank k (entries ++ seen) (entries.foldl (offer k) heap) left := by
  induction entries generalizing seen heap left with
  | nil => exact ⟨left, best⟩
  | cons entry rest ih =>
    have held : ∀ held ∈ heap, (ofLex held).1.isNan = false := by
      intro held member
      exact numbers held (List.mem_append_right _ (best.all.subset (List.mem_append_left _ member)))
    obtain ⟨now, next⟩ := offer_best best (numbers entry List.mem_cons_self) held
    have moved : (rest ++ entry :: seen).Perm (entry :: rest ++ seen) := List.perm_middle
    obtain ⟨last, done⟩ := ih next fun other member => numbers other (moved.subset member)
    exact ⟨last, done.of_perm moved⟩

/-- Whether the score at an index reaches what the type of its tag asks for. -/
def eligible (vec : List F32) (generalThreshold characterThreshold : F32) (tags : List Tag) (i : Nat) : Bool :=
  (vec[i]?.bind fun p => tags[i]?.map fun t => p.ge (threshold generalThreshold characterThreshold t.type)).getD false

theorem eligible_iff {i : Nat} : eligible vec generalThreshold characterThreshold tags i = true ↔
    ∃ p t, vec[i]? = some p ∧ tags[i]? = some t ∧ p.ge (threshold generalThreshold characterThreshold t.type) = true := by
  rw [eligible]
  cases vec[i]? with
  | none => simp
  | some p => cases tags[i]? with
    | none => simp
    | some t => simp

theorem mem_entries {p : F32} {i : Nat} : toLex (p, i) ∈ entries vec generalThreshold characterThreshold tags ↔
    eligible vec generalThreshold characterThreshold tags i = true ∧ vec[i]? = some p := by
  rw [eligible_iff, entries]
  simp only [List.mem_map, List.mem_filter, Prod.exists, List.mk_mem_zipIdx_iff_getElem?, List.getElem?_zip_eq_some]
  constructor
  · intro ⟨val, t, index, ⟨⟨score, tag⟩, reaches⟩, same⟩
    cases same
    exact ⟨⟨p, t, score, tag, reaches⟩, score⟩
  · intro ⟨⟨val, t, score, tag, reaches⟩, named⟩
    cases score.symm.trans named
    exact ⟨p, t, i, ⟨⟨score, tag⟩, reaches⟩, rfl⟩

def index (entry : Entry) : Nat := (ofLex entry).2

theorem nodup_entries : ((entries vec generalThreshold characterThreshold tags).map index).Nodup := by
  rw [entries, List.map_map]
  apply List.Nodup.sublist (List.filter_sublist.map Prod.snd)
  rw [List.zipIdx_map_snd]
  exact List.nodup_range'

theorem length_entries : (entries vec generalThreshold characterThreshold tags).length =
    (List.range vec.length).countP (eligible vec generalThreshold characterThreshold tags) := by
  have same : ((entries vec generalThreshold characterThreshold tags).map index).Perm
      ((List.range vec.length).filter (eligible vec generalThreshold characterThreshold tags)) := by
    apply (List.perm_ext_iff_of_nodup nodup_entries (List.nodup_range.filter _)).mpr
    intro i
    rw [List.mem_map, List.mem_filter, List.mem_range]
    constructor
    · intro ⟨entry, member, same⟩
      subst same
      obtain ⟨reaches, score⟩ := mem_entries.mp member
      exact ⟨(List.getElem?_eq_some_iff.mp score).1, reaches⟩
    · intro ⟨_, reaches⟩
      obtain ⟨p, _, score, _⟩ := eligible_iff.mp reaches
      exact ⟨toLex (p, i), mem_entries.mpr ⟨reaches, score⟩, rfl⟩
  rw [List.countP_eq_length_filter, ← same.length_eq, List.length_map]

theorem isNan_of_entries (member : entry ∈ entries vec generalThreshold characterThreshold tags) :
    (ofLex entry).1.isNan = false := by
  obtain ⟨reaches, score⟩ := mem_entries.mp member
  obtain ⟨p, t, found, _, above⟩ := eligible_iff.mp reaches
  cases score.symm.trans found
  exact (F32.ge_iff.mp above).1

/-- A pair of the result stands for an entry. -/
structure Names (vec : List F32) (generalThreshold characterThreshold : F32) (tags : List Tag) (pair : Tag × F32)
    (entry : Entry) : Prop where
  entered : entry ∈ entries vec generalThreshold characterThreshold tags
  tag : tags[index entry]? = some pair.1
  score : (ofLex entry).1 = pair.2

theorem mapM_names {chosen : List Entry} (inside : ∀ entry ∈ chosen, entry ∈ entries vec generalThreshold characterThreshold tags) :
    ∃ result, (chosen.mapM fun entry => tags[(ofLex entry).2]?.map fun tag => (tag, (ofLex entry).1)) = some result ∧
      List.Forall₂ (Names vec generalThreshold characterThreshold tags) result chosen := by
  induction chosen with
  | nil => exact ⟨[], rfl, .nil⟩
  | cons entry rest ih =>
    have entered := inside entry List.mem_cons_self
    obtain ⟨_, tag, _, found, _⟩ := eligible_iff.mp (mem_entries.mp entered).1
    obtain ⟨result, named, all⟩ := ih fun other member => inside other (List.mem_cons_of_mem entry member)
    refine ⟨(tag, (ofLex entry).1) :: result, ?_, .cons ⟨entered, found, rfl⟩ all⟩
    have tagged : tags[(ofLex entry).2]? = some tag := found
    rw [List.mapM_cons, named, tagged]
    rfl

theorem forall₂_mem {α β : Type} {r : α → β → Prop} {as : List α} {bs : List β} (all : List.Forall₂ r as bs) :
    ∀ a ∈ as, ∃ b ∈ bs, r a b := by
  induction all with
  | nil => exact List.forall_mem_nil _
  | cons first _ ih =>
    refine List.forall_mem_cons.mpr ⟨⟨_, List.mem_cons_self, first⟩, ?_⟩
    intro a member
    obtain ⟨b, inside, related⟩ := ih a member
    exact ⟨b, List.mem_cons_of_mem _ inside, related⟩

/-- The heap ends with the best entries. -/
theorem heap_best (vec : List F32) (k : Nat) (generalThreshold characterThreshold : F32) (tags : List Tag) :
    ∃ left, Best rank k (entries vec generalThreshold characterThreshold tags)
      ((entries vec generalThreshold characterThreshold tags).foldl (offer k) []) left := by
  have numbers : ∀ entry ∈ entries vec generalThreshold characterThreshold tags ++ [], (ofLex entry).1.isNan = false := by
    intro entry member
    rw [List.append_nil] at member
    exact isNan_of_entries member
  obtain ⟨left, best⟩ := foldl_best (k := k) Best.empty numbers
  rw [List.append_nil] at best
  exact ⟨left, best⟩

/-- The pairs returned are some best entries, whatever the standard library does with
equal scores; indexing the tags never panics. -/
theorem topKHeap_names (std : Std) (reserved : std.reserves ((k + 1) % 2 ^ 64) = true) (best : Best rank k (entries vec generalThreshold characterThreshold tags)
      ((entries vec generalThreshold characterThreshold tags).foldl (offer k) []) left) :
    ∃ result chosen, topKHeap std vec k generalThreshold characterThreshold tags = some result ∧
      (result.Pairwise fun a b => b.2 ≤ a.2) ∧
      List.Forall₂ (Names vec generalThreshold characterThreshold tags) result chosen ∧
      Best rank k (entries vec generalThreshold characterThreshold tags) chosen left := by
  generalize kept : (entries vec generalThreshold characterThreshold tags).foldl (offer k) [] = heap at best
  have same := std.intoIter_perm heap
  have inside : ∀ entry ∈ std.intoIter heap, entry ∈ entries vec generalThreshold characterThreshold tags := by
    intro entry member
    exact best.all.subset (List.mem_append_left left (same.subset member))
  obtain ⟨picked, indexed, named⟩ := mapM_names inside
  obtain ⟨chosen, aligned, reordered⟩ := List.perm_comp_forall₂ (std.sortUnstable_perm picked) named
  have back : heap.Perm chosen := (reordered.trans same).symm
  refine ⟨std.sortUnstable picked, chosen, ?_, std.sortUnstable_sorted picked, aligned, ?_⟩
  · rw [topKHeap, if_pos reserved, kept]
    dsimp only
    rw [indexed]
    rfl
  · exact best.of_kept back

/-- The result is the best `k` of the eligible tags, the best first. -/
theorem topKHeap_reserved (std : Std) (vec : List F32) (k : Nat) (generalThreshold characterThreshold : F32) (tags : List Tag)
    (reserved : std.reserves ((k + 1) % 2 ^ 64) = true) :
    ∃ result indices, topKHeap std vec k generalThreshold characterThreshold tags = some result ∧
      result.length = min k ((List.range vec.length).countP (eligible vec generalThreshold characterThreshold tags)) ∧
      (result.Pairwise fun a b => a.2.ge b.2 = true) ∧
      indices.Nodup ∧ (∀ i ∈ indices, eligible vec generalThreshold characterThreshold tags i = true) ∧
      List.Forall₂ (fun pair i => tags[i]? = some pair.1 ∧ vec[i]? = some pair.2) result indices ∧
      ∀ i, eligible vec generalThreshold characterThreshold tags i = true → i ∉ indices →
        ∃ score, vec[i]? = some score ∧ ∀ pair ∈ result, pair.2.ge score = true := by
  obtain ⟨left, kept⟩ := heap_best vec k generalThreshold characterThreshold tags
  obtain ⟨result, chosen, returned, sorted, aligned, best⟩ := topKHeap_names std reserved kept
  have number : ∀ pair ∈ result, pair.2.isNan = false := by
    intro pair member
    obtain ⟨entry, _, names⟩ := forall₂_mem aligned pair member
    exact names.score ▸ isNan_of_entries names.entered
  have apart : (chosen.map index).Nodup := by
    have all := (best.all.map index).nodup_iff.mpr nodup_entries
    rw [List.map_append] at all
    exact all.of_append_left
  refine ⟨result, chosen.map index, returned, ?_, ?_, apart, ?_, ?_, ?_⟩
  · rw [aligned.length_eq, best.length, length_entries]
  · apply List.Pairwise.imp_of_mem _ sorted
    intro a b first second ordered
    exact F32.ge_iff.mpr ⟨number a first, number b second, F32.value_le ordered⟩
  · intro i listed
    obtain ⟨entry, member, same⟩ := List.mem_map.mp listed
    subst same
    exact (mem_entries.mp (best.all.subset (List.mem_append_left left member))).1
  · apply List.forall₂_map_right_iff.mpr
    apply aligned.imp
    intro pair entry names
    exact ⟨names.tag, names.score ▸ (mem_entries.mp names.entered).2⟩
  · intro i reaches unlisted
    obtain ⟨score, _, found, _⟩ := eligible_iff.mp reaches
    refine ⟨score, found, ?_⟩
    have entered : toLex (score, i) ∈ entries vec generalThreshold characterThreshold tags := mem_entries.mpr ⟨reaches, found⟩
    have leftOut : toLex (score, i) ∈ left := by
      cases List.mem_append.mp (best.all.symm.subset entered) with
      | inl member => exact absurd (List.mem_map.mpr ⟨_, member, rfl⟩) unlisted
      | inr member => exact member
    intro pair member
    obtain ⟨entry, inside, names⟩ := forall₂_mem aligned pair member
    have above : rank (toLex (score, i)) ≤ rank entry := best.better entry inside _ leftOut
    have value : rank entry = pair.2.value := congrArg F32.value names.score
    exact F32.ge_iff.mpr ⟨number pair member, isNan_of_entries entered, value ▸ above⟩

/-- With room for `k + 1` entries the result is the best `k` of the eligible tags, the best
first, and without it there is none. There is always room for no entry, which is what
`k + 1` wraps to for the largest `k`, and for less than 2^59 as far as there is memory. -/
theorem topKHeap_best (std : Std) (vec : List F32) (k : Nat) (generalThreshold characterThreshold : F32) (tags : List Tag) :
    let capacity := (k + 1) % 2 ^ 64
    (std.reserves capacity = true ↔ capacity = 0 ∨ capacity < 2 ^ 59 ∧ std.allocates (entryBytes * capacity) = true) ∧
    (std.reserves capacity = false → topKHeap std vec k generalThreshold characterThreshold tags = none) ∧
    (std.reserves capacity = true → ∃ result indices, topKHeap std vec k generalThreshold characterThreshold tags = some result ∧
      result.length = min k ((List.range vec.length).countP (eligible vec generalThreshold characterThreshold tags)) ∧
      (result.Pairwise fun a b => a.2.ge b.2 = true) ∧
      indices.Nodup ∧ (∀ i ∈ indices, eligible vec generalThreshold characterThreshold tags i = true) ∧
      List.Forall₂ (fun pair i => tags[i]? = some pair.1 ∧ vec[i]? = some pair.2) result indices ∧
      ∀ i, eligible vec generalThreshold characterThreshold tags i = true → i ∉ indices →
        ∃ score, vec[i]? = some score ∧ ∀ pair ∈ result, pair.2.ge score = true) := by
  intro capacity
  refine ⟨?_, fun refused => ?_, topKHeap_reserved std vec k generalThreshold characterThreshold tags⟩
  · rw [Std.reserves, Bool.or_eq_true, beq_iff_eq, Bool.and_eq_true, decide_eq_true_iff, entryBytes, isizeMax]
    exact or_congr_right (and_congr_left fun _ => by omega)
  · rw [topKHeap, refused]
    rfl

/-- Room for half an address space of entries cannot be reserved, not even to choose from
nothing. -/
theorem topKHeap_overflows : topKHeap .inserting [] (2 ^ 59 - 1) ⟨0⟩ ⟨0⟩ [] = none := by decide

/-- A quarter, NaN and two halves, of which the first is of a type that asks for more. -/
theorem topKHeap_best_halves :
    ∃ result, topKHeap .inserting [⟨0x3e800000⟩, ⟨0x7fc00000⟩, ⟨0x3f000000⟩, ⟨0x3f000000⟩] 2 ⟨0⟩ ⟨0x3f400000⟩
        [⟨.general, "a"⟩, ⟨.general, "b"⟩, ⟨.character, "c"⟩, ⟨.general, "d"⟩] = some result ∧
      result.length = 2 ∧ result.map (·.1.name) = ["d", "a"] := by
  obtain ⟨result, indices, returned, length, _⟩ := (topKHeap_best .inserting
    [⟨0x3e800000⟩, ⟨0x7fc00000⟩, ⟨0x3f000000⟩, ⟨0x3f000000⟩] 2 ⟨0⟩ ⟨0x3f400000⟩
    [⟨.general, "a"⟩, ⟨.general, "b"⟩, ⟨.character, "c"⟩, ⟨.general, "d"⟩]).2.2 (by decide)
  refine ⟨result, returned, length.trans (by decide), ?_⟩
  have chosen : (topKHeap .inserting [⟨0x3e800000⟩, ⟨0x7fc00000⟩, ⟨0x3f000000⟩, ⟨0x3f000000⟩] 2 ⟨0⟩ ⟨0x3f400000⟩
    [⟨.general, "a"⟩, ⟨.general, "b"⟩, ⟨.character, "c"⟩, ⟨.general, "d"⟩]).map (·.map (·.1.name)) = some ["d", "a"] := by decide
  rw [returned] at chosen
  exact Option.some.inj chosen

end LetsEmbed.WdTagger
