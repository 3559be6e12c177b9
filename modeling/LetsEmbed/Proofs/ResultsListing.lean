import LetsEmbed.Proofs.SearchTablesPages
import LetsEmbed.ResultsQuery

/-! Asking for one page of posts after the other. Whether there is another page is
told by the posts that were left after those whose lists did not load. -/

namespace LetsEmbed.Results
open SearchEngine Systems

/-- A client that adds the limit to the offset until there are no more. -/
def browse (engine : Engine) (mode q : String) (seed limit : Int) : (requests : Nat) → (offset : Int) → Option (List PostItem)
  | 0, _ => none
  | requests + 1, offset =>
    match searchQuery engine mode q seed limit offset with
    | .error _ => none
    | .ok resp =>
      if resp.hasMore then (browse engine mode q seed limit requests (offset + limit)).map (resp.posts ++ ·)
      else some resp.posts

def matching (engine : Engine) (mode : Mode) (q : String) : List Post :=
  if q = "" then engine.posts else if mode = .author then engine.authored q else engine.titled q

/-- The rows of the page that is asked for after `k` others. -/
def page (engine : Engine) (mode : Mode) (q : String) (limit : Int) (k : Nat) : List Post :=
  Windows.window limit.toNat (Engine.byId (matching engine mode q)) k

def Loads (engine : Engine) (post : Post) : Prop :=
  (engine.listPostImages post.id).isSome ∧ (engine.listPostVideos post.id).isSome

instance (engine : Engine) (post : Post) : Decidable (Loads engine post) := inferInstanceAs (Decidable (_ ∧ _))

/-- A full page that is taken for the last. -/
def Breaks (engine : Engine) (mode : Mode) (rows : List Post) : Prop :=
  if mode = .random then ∀ post ∈ rows, ¬Loads engine post else ∃ post ∈ rows, ¬Loads engine post

def more (engine : Engine) (mode : Mode) (limit : Int) (rows : List Post) : Bool :=
  let count := (rows.filterMap (detailed engine)).length
  if mode = .random then decide (count > 0) else decide (count ≥ limit)

variable {engine : Engine} {mode q : String} {seed limit : Int} {post : Post} {rows : List Post}

theorem detailed_isSome : (detailed engine post).isSome ↔ Loads engine post := by
  unfold detailed Loads
  cases engine.listPostImages post.id <;> cases engine.listPostVideos post.id <;> simp

theorem detailed_id {item : PostItem} (found : detailed engine post = some item) : item.id = post.id := by
  unfold detailed at found
  obtain ⟨images, _, rest⟩ := Option.bind_eq_some_iff.mp found
  obtain ⟨_, _, made⟩ := Option.bind_eq_some_iff.mp rest
  cases made
  rfl

theorem detailed_ids : (rows.filterMap (detailed engine)).map (·.id) = (rows.filter (Loads engine ·)).map (·.id) := by
  induction rows with
  | nil => rfl
  | cons post rest ih =>
    cases found : detailed engine post with
    | none =>
      have fails : ¬Loads engine post := fun loads => by simp [← detailed_isSome, found] at loads
      rw [List.filterMap_cons_none found, List.filter_cons_of_neg (by simpa using fails), ih]
    | some item =>
      have loads : Loads engine post := detailed_isSome.mp (by rw [found]; rfl)
      rw [List.filterMap_cons_some found, List.filter_cons_of_pos (by simpa using loads), List.map_cons, List.map_cons,
        detailed_id found, ih]

theorem window_ok {α : Type} {rows : List α} {k : Nat} (positive : 1 ≤ limit) :
    Engine.window rows (max limit 1) (max (k * limit) 0) = .ok (Windows.window limit.toNat rows k) := by
  have large : 0 ≤ limit := Int.le_trans Int.one_nonneg positive
  rw [max_eq_left positive, max_eq_left (Int.mul_nonneg (Int.natCast_nonneg k) large)]
  exact window_page large k

theorem searchQuery_page (listing : q = "" ∨ Mode.parse mode = .author ∨ Mode.parse mode = .title) (positive : 1 ≤ limit)
    (k : Nat) : searchQuery engine mode q seed limit (k * limit) =
      .ok ⟨(page engine (Mode.parse mode) q limit k).filterMap (detailed engine), [],
        more engine (Mode.parse mode) limit (page engine (Mode.parse mode) q limit k)⟩ := by
  have here (rows : List Post) := @window_ok limit _ rows k positive
  have least : max limit 1 = limit := max_eq_left positive
  simp only [searchQuery, page, matching, more]
  by_cases empty : q = ""
  · simp only [if_pos empty, if_pos (Or.inl empty), Engine.newestPosts, here]
    simp only [least]
    rfl
  · cases listing.resolve_left empty with
    | inl author =>
      simp only [author, if_neg empty, true_or, or_true, if_true, Engine.searchPostsByAuthor, here]
      simp only [least]
      rfl
    | inr title =>
      have other : Mode.title ≠ Mode.author := Mode.noConfusion
      simp only [title, if_neg empty, if_neg other, true_or, or_true, if_true, Engine.searchPostsByTitle, here]
      simp only [least]
      rfl

theorem browse_walk (listing : q = "" ∨ Mode.parse mode = .author ∨ Mode.parse mode = .title) (positive : 1 ≤ limit)
    (requests k : Nat) : browse engine mode q seed limit requests (k * limit) =
      Windows.walk (detailed engine) (more engine (Mode.parse mode) limit) limit.toNat
        (Engine.byId (matching engine (Mode.parse mode) q)) requests k := by
  induction requests generalizing k with
  | zero => rfl
  | succ requests ih =>
    have next : (k : Int) * limit + limit = (k + 1 : Nat) * limit := by
      rw [Nat.cast_succ, Int.add_mul, Int.one_mul]
    simp only [browse, searchQuery_page listing positive, next, ih]
    rfl

theorem byId_perm : (Engine.byId rows).Perm rows := List.perm_insertionSort ..

theorem more_full (full : rows.length = limit.toNat) (positive : 1 ≤ limit) (mode : Mode) :
    more engine mode limit rows = false ↔ Breaks engine mode rows := by
  have none_loads : (rows.filterMap (detailed engine)).length = 0 ↔ ∀ post ∈ rows, ¬Loads engine post := by
    simp only [List.length_eq_zero_iff, List.filterMap_eq_nil_iff, ← detailed_isSome, Option.not_isSome_iff_eq_none]
  have all_load : (rows.filterMap (detailed engine)).length = rows.length ↔ ∀ post ∈ rows, Loads engine post := by
    simp only [List.filterMap_length_eq_length, detailed_isSome]
  have least := List.length_filterMap_le (detailed engine) rows
  unfold more Breaks
  by_cases random : mode = .random
  · simp only [if_pos random, ← none_loads, decide_eq_false_iff_not, Nat.not_lt, Nat.le_zero, gt_iff_lt]
  · have fails : (∃ post ∈ rows, ¬Loads engine post) ↔ ¬∀ post ∈ rows, Loads engine post := by
      simp only [not_forall, exists_prop]
    simp only [if_neg random, fails, ← all_load, decide_eq_false_iff_not]
    omega

theorem unbroken_iff (positive : 1 ≤ limit) (mode : Mode) :
    Windows.Unbroken (detailed engine) (more engine mode limit) limit.toNat rows 0 ↔
      ∀ earlier later, earlier < later → Breaks engine mode (Windows.window limit.toNat rows earlier) →
        ∀ post ∈ Windows.window limit.toNat rows later, ¬Loads engine post := by
  have loads (post : Post) : detailed engine post = none ↔ ¬Loads engine post := by
    rw [← detailed_isSome, Option.not_isSome_iff_eq_none]
  constructor
  · intro unbroken earlier later before breaks post member
    have full := Windows.window_full before member
    exact (loads post).mp (unbroken earlier (Nat.zero_le _) ((more_full full positive mode).mpr breaks) later before post member)
  · intro quiet earlier _ stops later before post member
    have full := Windows.window_full before member
    exact (loads post).mpr (quiet earlier later before ((more_full full positive mode).mp stops) post member)

theorem more_nil (positive : 1 ≤ limit) (mode : Mode) : more engine mode limit [] = false := by
  unfold more
  split
  · rfl
  · exact decide_eq_false (by rw [List.filterMap_nil, List.length_nil]; omega)

theorem matching_nodup (listing : q = "" ∨ Mode.parse mode = .author ∨ Mode.parse mode = .title)
    (once : Mode.parse mode = .author → ((matching engine (Mode.parse mode) q).map (·.id)).Nodup) :
    ((matching engine (Mode.parse mode) q).map (·.id)).Nodup := by
  by_cases empty : q = ""
  · rw [matching, if_pos empty]
    exact engine.keyed
  · cases listing.resolve_left empty with
    | inl author => exact once author
    | inr title =>
      rw [matching, if_neg empty, title, if_neg Mode.noConfusion]
      exact engine.keyed.sublist (List.filter_sublist.map _)

/-- What is returned in part is returned once, and as a whole when nothing is missing. -/
theorem counted_iff (nodup : (rows.map (·.id)).Nodup) {items : List PostItem}
    (part : items.Sublist (rows.filterMap (detailed engine))) :
    (∀ post ∈ rows, Loads engine post → (items.map (·.id)).count post.id = 1) ↔ items = rows.filterMap (detailed engine) := by
  have ids : ((rows.filterMap (detailed engine)).map (·.id)).Nodup := by
    rw [detailed_ids]
    exact nodup.sublist (List.filter_sublist.map _)
  constructor
  · intro counted
    apply part.eq_of_length_le
    have covered : (rows.filterMap (detailed engine)).map (·.id) ⊆ items.map (·.id) := by
      intro id member
      rw [detailed_ids] at member
      obtain ⟨post, kept, rfl⟩ := List.mem_map.mp member
      obtain ⟨listed, loads⟩ := List.mem_filter.mp kept
      exact List.count_pos_iff.mp (counted post listed (of_decide_eq_true loads) ▸ Nat.one_pos)
    simpa only [List.length_map] using (List.subperm_of_subset ids covered).length_le
  · intro whole post listed loads
    apply List.count_eq_one_of_mem
    · rwa [whole]
    · rw [whole, detailed_ids]
      exact List.mem_map_of_mem (List.mem_filter.mpr ⟨listed, decide_eq_true loads⟩)

/-- Every matching post whose lists load is returned once, whatever else does not
load, exactly if no page that is taken for the last has such a post behind it. -/
theorem listing_complete_iff (engine : Engine) (mode q : String) (seed limit : Int)
    (listing : q = "" ∨ Mode.parse mode = .author ∨ Mode.parse mode = .title) (positive : 1 ≤ limit)
    (once : Mode.parse mode = .author → ((matching engine (Mode.parse mode) q).map (·.id)).Nodup) (requests : Nat)
    (enough : (matching engine (Mode.parse mode) q).length ≤ requests * limit) :
    ∃ items, browse engine mode q seed limit (requests + 1) 0 = some items ∧
      items.Sublist ((Engine.byId (matching engine (Mode.parse mode) q)).filterMap (detailed engine)) ∧
      ((∀ post ∈ matching engine (Mode.parse mode) q, Loads engine post → (items.map (·.id)).count post.id = 1) ↔
        ∀ earlier later, earlier < later → Breaks engine (Mode.parse mode) (page engine (Mode.parse mode) q limit earlier) →
          ∀ post ∈ page engine (Mode.parse mode) q limit later, ¬Loads engine post) := by
  have perm := @byId_perm (matching engine (Mode.parse mode) q)
  have nodup := (perm.map (·.id)).nodup_iff.mpr (matching_nodup listing once)
  have walked := @browse_walk engine mode q seed limit listing positive (requests + 1) 0
  have covers : (Engine.byId (matching engine (Mode.parse mode) q)).length ≤ (0 + requests) * limit.toNat := by
    have whole : ((requests * limit.toNat : Nat) : Int) = requests * limit := by
      rw [Nat.cast_mul, Int.toNat_of_nonneg (by omega)]
    rw [perm.length_eq, Nat.zero_add]
    omega
  obtain ⟨items, found, part, complete⟩ := @Windows.walk_spec _ _ (detailed engine) _ limit.toNat _
    (by omega) (more_nil positive _) requests 0 covers
  rw [Nat.zero_mul, List.drop_zero] at part complete
  rw [Nat.cast_zero, Int.zero_mul, found] at walked
  refine ⟨items, walked, part, ?_⟩
  have sorted : (∀ post ∈ matching engine (Mode.parse mode) q, Loads engine post → (items.map (·.id)).count post.id = 1) ↔
      ∀ post ∈ Engine.byId (matching engine (Mode.parse mode) q), Loads engine post → (items.map (·.id)).count post.id = 1 :=
    forall_congr' fun _ => by rw [perm.mem_iff]
  rw [sorted, counted_iff nodup part, complete, unbroken_iff positive]
  rfl

section Example

def sampleEngine (broken : Int) : Engine where
  posts := [⟨1, "one"⟩, ⟨2, "two"⟩, ⟨3, "three"⟩]
  keyed := by decide
  images := []
  authors := []
  authorPosts := []
  ilike _ _ := true
  taggedImages _ := []
  listPostImages id := if id = broken then none else some []
  listPostVideos _ := some []

/-- The newest of three posts does not load, and with pages of two the oldest is never asked for. -/
theorem skipped_post_ends_listing :
    browse (sampleEngine 3) "tag" "" 0 2 3 0 = some [⟨2, []⟩] ∧
      ⟨1, "one"⟩ ∈ matching (sampleEngine 3) (Mode.parse "tag") "" ∧ Loads (sampleEngine 3) ⟨1, "one"⟩ := by
  decide +kernel

theorem listing_complete_iff_last :
    ∃ items, browse (sampleEngine 1) "title" "e" 0 2 3 0 = some items ∧
      items.Sublist ((Engine.byId (matching (sampleEngine 1) (Mode.parse "title") "e")).filterMap (detailed (sampleEngine 1))) ∧
      ((∀ post ∈ matching (sampleEngine 1) (Mode.parse "title") "e", Loads (sampleEngine 1) post →
          (items.map (·.id)).count post.id = 1) ↔
        ∀ earlier later, earlier < later →
          Breaks (sampleEngine 1) (Mode.parse "title") (page (sampleEngine 1) (Mode.parse "title") "e" 2 earlier) →
          ∀ post ∈ page (sampleEngine 1) (Mode.parse "title") "e" 2 later, ¬Loads (sampleEngine 1) post) := by
  have title : Mode.parse "title" = .title := by decide
  apply listing_complete_iff (sampleEngine 1) "title" "e" 0 2 (.inr (.inr title)) (by decide) ?_ 2 ?_
  · intro author
    cases title.symm.trans author
  · decide +kernel

end Example
end LetsEmbed.Results
