import LetsEmbed.SearchTables
import LetsEmbed.Systems.F32
import LetsEmbed.Systems.Windows
import Mathlib.Data.List.Pairwise

/-! Posts by author and by tag, page after page. A post is found once for each of its
names that matches, so a second one lists it again and moves what follows. -/

namespace LetsEmbed.SearchEngine
open Systems

/-- Pages at offsets 0, `limit`, `2 * limit` and so on hold, until nothing is left, the
posts that are wanted, each of them once and the newest first. -/
def Lists (search : (limit offset : Int) → Except String (List Post)) (limit : Int) (wanted : Post → Prop) : Prop :=
  ∃ pages : Nat → List Post, (∀ k : Nat, search limit (k * limit) = .ok (pages k)) ∧ ∃ count, (∀ k ≥ count, pages k = []) ∧
    (∀ post, post ∈ (List.range count).flatMap pages ↔ wanted post) ∧
    ((List.range count).flatMap pages).Pairwise fun first later => later.id < first.id

namespace Tables
variable {Score : Type} [LinearOrder Score] (t : Tables Score) (folding : Like.Folding) (q : String)

def ByAuthor (author : Author) (post : Post) : Prop :=
  author ∈ t.authors ∧ contains folding author.name q = true ∧ (author.id, post.id) ∈ t.authorPosts

def ByTag (tag : Tag) (post : Post) : Prop :=
  tag ∈ t.tags ∧ contains folding tag.name q = true ∧ (tag.id, post.id) ∈ t.tagPosts

end Tables

/-- Every post matches by one name at most, or nothing is asked for and nothing there. -/
def Countable {N : Type} (posts : List Post) (matched : N → Post → Prop) (limit : Int) : Prop :=
  1 ≤ limit ∧ (∀ post ∈ posts, ∀ name other, matched name post → matched other post → name = other) ∨
    limit = 0 ∧ ∀ post ∈ posts, ∀ name, ¬matched name post

section Joins
variable {N : Type} {names : List N} {key : N → Int} {links : List (Int × Int)} {posts : List Post} {post : Post}

/-- Names to links to posts. -/
def related (names : List N) (key : N → Int) (links : List (Int × Int)) (posts : List Post) : List Post :=
  names.flatMap fun name => (links.filter (·.1 = key name)).flatMap fun link => posts.filter (·.id = link.2)

theorem mem_linked {name : N} : post ∈ (links.filter (·.1 = key name)).flatMap (fun link => posts.filter (·.id = link.2)) ↔
    post ∈ posts ∧ (key name, post.id) ∈ links := by
  simp only [List.mem_flatMap, List.mem_filter, decide_eq_true_iff]
  constructor
  · intro ⟨⟨first, second⟩, ⟨linked, here⟩, inside, same⟩
    dsimp only at here same
    rw [here, ← same] at linked
    exact ⟨inside, linked⟩
  · intro ⟨inside, linked⟩
    exact ⟨_, ⟨linked, rfl⟩, inside, rfl⟩

theorem mem_related : post ∈ related names key links posts ↔ post ∈ posts ∧ ∃ name ∈ names, (key name, post.id) ∈ links := by
  rw [related, List.mem_flatMap]
  simp only [mem_linked]
  constructor
  · intro ⟨name, named, inside, linked⟩
    exact ⟨inside, name, named, linked⟩
  · intro ⟨inside, name, named, linked⟩
    exact ⟨name, named, inside, linked⟩

theorem nodup_linked (keyed : (posts.map (·.id)).Nodup) (linksKeyed : links.Nodup) (name : N) :
    ((links.filter (·.1 = key name)).flatMap fun link => posts.filter (·.id = link.2)).Nodup := by
  rw [List.nodup_flatMap]
  refine ⟨fun link _ => (List.Nodup.of_map _ keyed).filter _, ?_⟩
  apply (linksKeyed.filter _).pairwise_of_forall_ne
  intro link member other member' apart
  have here := (List.mem_filter.mp member).2
  have here' := (List.mem_filter.mp member').2
  rw [decide_eq_true_iff] at here here'
  intro post inside inside'
  have target := (List.mem_filter.mp inside).2
  have target' := (List.mem_filter.mp inside').2
  rw [decide_eq_true_iff] at target target'
  exact apart (Prod.ext (here.trans here'.symm) (target.symm.trans target'))

/-- A post is repeated where it has two of the names. -/
theorem nodup_related (keyed : (posts.map (·.id)).Nodup) (linksKeyed : links.Nodup) (distinct : names.Nodup) :
    (related names key links posts).Nodup ↔ ∀ post ∈ posts, ∀ name ∈ names, ∀ other ∈ names,
      (key name, post.id) ∈ links → (key other, post.id) ∈ links → name = other := by
  rw [related, List.nodup_flatMap]
  constructor
  · intro ⟨_, apart⟩ post inside name named other named' linked linked'
    by_contra differ
    have symmetric : Std.Symm (Function.onFun List.Disjoint fun name =>
        (links.filter (·.1 = key name)).flatMap fun link => posts.filter (·.id = link.2)) := ⟨fun _ _ => List.Disjoint.symm⟩
    have disjoint := apart.forall named named' differ
    exact disjoint (mem_linked.mpr ⟨inside, linked⟩) (mem_linked.mpr ⟨inside, linked'⟩)
  · intro once
    refine ⟨fun name _ => nodup_linked keyed linksKeyed name, ?_⟩
    apply distinct.pairwise_of_forall_ne
    intro name named other named' differ post here there
    obtain ⟨inside, linked⟩ := mem_linked.mp here
    obtain ⟨_, linked'⟩ := mem_linked.mp there
    exact differ (once post inside name named other named' linked linked')

end Joins

section Pages
variable {search : (limit offset : Int) → Except String (List Post)} {rows : List Post} {limit : Int} {wanted : Post → Prop}

theorem window_page {α : Type} {rows : List α} (positive : 0 ≤ limit) (k : Nat) :
    Engine.window rows limit (k * limit) = .ok (Windows.window limit.toNat rows k) := by
  have offset : 0 ≤ k * limit := Int.mul_nonneg (Int.natCast_nonneg k) positive
  have start : (k * limit).toNat = k * limit.toNat := by
    rw [Int.toNat_mul (Int.natCast_nonneg k) positive, Int.toNat_natCast]
  rw [Engine.window, if_neg (not_or.mpr ⟨Int.not_lt.mpr positive, Int.not_lt.mpr offset⟩), start]
  rfl

/-- Pages of a window list what its rows are, if there is a limit to go by. -/
theorem lists_window (same : ∀ offset, search limit offset = Engine.window rows limit offset) : Lists search limit wanted ↔
    1 ≤ limit ∧ (∀ post, post ∈ rows ↔ wanted post) ∧ rows.Pairwise (fun first later => later.id < first.id) ∨
      limit = 0 ∧ ∀ post, ¬wanted post := by
  constructor
  · intro ⟨pages, answered, count, ended, whole, ordered⟩
    have asked : 0 ≤ limit := by
      by_contra negative
      have refused := answered 0
      rw [same, Engine.window, if_pos (.inl (Int.not_le.mp negative))] at refused
      cases refused
    have windows : pages = Windows.window limit.toNat rows := by
      funext k
      have page := answered k
      rw [same, window_page asked] at page
      exact (Except.ok.inj page).symm
    rw [windows, Windows.flatMap_window] at whole ordered
    by_cases empty : limit = 0
    · refine .inr ⟨empty, fun post wants => ?_⟩
      have member := (whole post).mpr wants
      rw [empty, Int.toNat_zero, Nat.mul_zero, List.take_zero] at member
      cases member
    · have past : rows.length ≤ count * limit.toNat := by
        have last := ended count (Nat.le_refl count)
        rw [windows, Windows.window, List.take_eq_nil_iff, List.drop_eq_nil_iff] at last
        exact last.resolve_left (by omega)
      rw [List.take_of_length_le past] at whole ordered
      exact .inl ⟨by omega, whole, ordered⟩
  · intro listed
    have asked : 0 ≤ limit := by omega
    refine ⟨Windows.window limit.toNat rows, fun k => (same _).trans (window_page asked k), rows.length, ?_⟩
    rw [Windows.flatMap_window]
    cases listed with
    | inl rest =>
      obtain ⟨positive, whole, ordered⟩ := rest
      have covers (k : Nat) : k ≤ k * limit.toNat := Nat.le_mul_of_pos_right k (by omega)
      rw [List.take_of_length_le (covers _)]
      exact ⟨fun k past => Windows.window_eq_nil (past.trans (covers k)), whole, ordered⟩
    | inr nothing =>
      rw [nothing.1, Int.toNat_zero, Nat.mul_zero, List.take_zero]
      refine ⟨fun k _ => List.take_zero, fun post => ?_, List.Pairwise.nil⟩
      exact iff_of_false List.not_mem_nil (nothing.2 post)

theorem mem_byId {post : Post} : post ∈ Engine.byId rows ↔ post ∈ rows := (List.perm_insertionSort _ rows).mem_iff

/-- Newest first, and strictly so exactly if no row comes twice. -/
theorem byId_strict {posts : List Post} (keyed : (posts.map (·.id)).Nodup) (among : ∀ post ∈ rows, post ∈ posts) :
    (Engine.byId rows).Pairwise (fun first later => later.id < first.id) ↔ rows.Nodup := by
  have perm : (Engine.byId rows).Perm rows := List.perm_insertionSort _ rows
  rw [← perm.nodup_iff]
  constructor
  · intro strict
    apply strict.imp
    intro first later before same
    rw [same] at before
    exact Int.lt_irrefl _ before
  · intro distinct
    have total : Std.Total fun first later : Post => later.id ≤ first.id := ⟨fun _ _ => Int.le_total ..⟩
    have transitive : IsTrans Post fun first later => later.id ≤ first.id := ⟨fun _ _ _ first second => Int.le_trans second first⟩
    have descending : (Engine.byId rows).Pairwise fun first later => later.id ≤ first.id := List.pairwise_insertionSort _ rows
    apply (descending.and distinct).imp_of_mem
    intro first later member member' ⟨before, differ⟩
    have inside := among later (perm.mem_iff.mp member')
    have inside' := among first (perm.mem_iff.mp member)
    have apart : later.id ≠ first.id := fun same => differ (List.inj_on_of_nodup_map keyed inside' inside same.symm)
    omega

/-- Pages of related posts, the newest first. -/
theorem lists_related {N : Type} {names : List N} {key : N → Int} {links : List (Int × Int)} {posts : List Post}
    {matched : N → Post → Prop} (keyed : (posts.map (·.id)).Nodup) (linksKeyed : links.Nodup) (distinct : names.Nodup)
    (matches_iff : ∀ name post, matched name post ↔ name ∈ names ∧ (key name, post.id) ∈ links)
    (same : ∀ offset, search limit offset = Engine.window (Engine.byId (related names key links posts)) limit offset) :
    Lists search limit (fun post => post ∈ posts ∧ ∃ name, matched name post) ↔ Countable posts matched limit := by
  have among : ∀ post ∈ related names key links posts, post ∈ posts := fun post member => (mem_related.mp member).1
  have once : (related names key links posts).Nodup ↔ ∀ post ∈ posts, ∀ name other, matched name post → matched other post →
      name = other := by
    rw [nodup_related keyed linksKeyed distinct]
    simp only [matches_iff]
    constructor
    · intro unique post inside name other ⟨named, linked⟩ ⟨named', linked'⟩
      exact unique post inside name named other named' linked linked'
    · intro unique post inside name named other named' linked linked'
      exact unique post inside name other ⟨named, linked⟩ ⟨named', linked'⟩
  have found (post : Post) : post ∈ Engine.byId (related names key links posts) ↔ post ∈ posts ∧ ∃ name, matched name post := by
    rw [mem_byId, mem_related]
    simp only [matches_iff]
  rw [lists_window same, byId_strict keyed among, once, Countable, and_iff_right found]
  simp only [not_and, not_exists]

end Pages

theorem guarded {α : Type} {found : Except String (List α)} {q message : String} (nonempty : q ≠ "") :
    (do
      let rows ← found
      if q = "" then .error message else .ok rows) = found := by
  cases found with
  | error message => rfl
  | ok rows => exact if_neg nonempty

namespace Tables
variable {Score : Type} [LinearOrder Score]

/-- Pages by author and by tag list every matching post once, in order, exactly if there
is a limit and no post has two names that match, or neither a limit nor a match. -/
theorem related_listed_iff (t : Tables Score) (folding : Like.Folding) (q : String) (nonempty : q ≠ "") (limit : Int) :
    (Lists ((t.engine folding).searchPostsByAuthor q) limit (fun post => post ∈ t.posts ∧ ∃ author, t.ByAuthor folding q author post) ↔
      Countable t.posts (t.ByAuthor folding q) limit) ∧
    (Lists (t.searchPostsByTag folding q) limit (fun post => post ∈ t.posts ∧ ∃ tag, t.ByTag folding q tag post) ↔
      Countable t.posts (t.ByTag folding q) limit) := by
  constructor
  · have distinct := (List.Nodup.of_map _ t.authorsKeyed).filter fun author => contains folding author.name q
    apply @lists_related _ _ _ _ (·.id) _ _ _ t.keyed t.authorPostsKeyed distinct
    · intro author post
      rw [List.mem_filter, and_assoc]
      rfl
    · intro offset
      exact guarded nonempty
  · have distinct := (List.Nodup.of_map _ t.tagsKeyed).filter fun tag => contains folding tag.name q
    apply @lists_related _ _ _ _ (·.id) _ _ _ t.keyed t.tagPostsKeyed distinct
    · intro tag post
      rw [List.mem_filter, and_assoc]
      rfl
    · intro offset
      exact guarded nonempty

section Example

/-- One post by two authors, the name of one inside the other's. -/
def duet : Tables F32 where
  posts := [⟨1, "dawn"⟩]
  images := []
  authors := [⟨1, "Anna"⟩, ⟨2, "Joanna"⟩]
  authorPosts := [(1, 1), (2, 1)]
  tags := [⟨1, "sky"⟩]
  tagPosts := [(1, 1)]
  wdTags := []
  wdTagTranslations := []
  wdTagImages := []
  listPostImages _ := some []
  listPostVideos _ := some []
  keyed := by decide
  authorsKeyed := by decide
  authorPostsKeyed := by decide
  tagsKeyed := by decide
  tagPostsKeyed := by decide
  titled := by decide +kernel
  authorsNamed := by decide +kernel
  wdTagsNamed := by decide
  translated := by decide

/-- Both pages hold the post. -/
theorem duet_twice :
    (duet.engine .ascii).searchPostsByAuthor "anna" 1 0 = .ok [⟨1, "dawn"⟩] ∧
    (duet.engine .ascii).searchPostsByAuthor "anna" 1 1 = .ok [⟨1, "dawn"⟩] ∧
    ¬Lists ((duet.engine .ascii).searchPostsByAuthor "anna") 1
      fun post => post ∈ duet.posts ∧ ∃ author, duet.ByAuthor .ascii "anna" author post := by
  refine ⟨by decide +kernel, by decide +kernel, fun listed => ?_⟩
  rw [lists_window fun offset => guarded (by decide)] at listed
  cases listed with
  | inl ordered => exact absurd ordered.2.2 (by decide +kernel)
  | inr nothing => cases nothing.1

theorem duet_tagged : Lists (duet.searchPostsByTag .ascii "SKY") 1
    fun post => post ∈ duet.posts ∧ ∃ tag, duet.ByTag .ascii "SKY" tag post := by
  apply (related_listed_iff duet .ascii "SKY" (by decide) 1).2.mpr
  refine .inl ⟨by decide, fun _ _ tag other ⟨here, _⟩ ⟨here', _⟩ => ?_⟩
  exact (List.mem_singleton.mp here).trans (List.mem_singleton.mp here').symm

end Example

end Tables

end LetsEmbed.SearchEngine
