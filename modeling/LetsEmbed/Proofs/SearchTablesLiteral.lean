import LetsEmbed.Proofs.SearchTablesPages
import LetsEmbed.Systems.F32

/-! What a text search finds. The text is put into a pattern as it is, so it finds what
contains it for certain only if nothing in it is special there. -/

namespace LetsEmbed.SearchEngine
open Results (Image)
open Systems

/-- The item is on a page that can be asked for. -/
def Returned {α : Type} (search : (limit offset : Int) → Except String (List α)) (item : α) : Prop :=
  ∃ limit offset page, search limit offset = .ok page ∧ item ∈ page

def Plain (q : String) : Prop := ∀ c ∈ q.toList, Like.isSpecial c = false

/-- The text contains what was typed, in whatever case. -/
def Literal (folding : Like.Folding) (text q : String) : Prop :=
  q.toList.map folding.fold <:+: text.toList.map folding.fold

namespace Tables
variable {Score : Type} [LinearOrder Score] (t : Tables Score) (folding : Like.Folding) (q : String)

def TitlesLiteral : Prop :=
  ∀ post, Returned ((t.engine folding).searchPostsByTitle q) post ↔ post ∈ t.posts ∧ Literal folding post.title q

def AuthorsLiteral : Prop :=
  ∀ post, Returned ((t.engine folding).searchPostsByAuthor q) post ↔
    post ∈ t.posts ∧ ∃ author ∈ t.authors, (author.id, post.id) ∈ t.authorPosts ∧ Literal folding author.name q

def ImagesLiteral : Prop :=
  ∀ image, Returned ((t.engine folding).searchImagesByTag q) image ↔
    image ∈ t.images ∧ ∃ wti ∈ t.wdTagImages, wti.imageId = image.id ∧
      ((∃ wt ∈ t.wdTags, wt.id = wti.wdTagId ∧ Literal folding wt.name q) ∨
        ∃ tt ∈ t.wdTagTranslations, tt.tagId = wti.wdTagId ∧ Literal folding tt.translation q)

/-- No text that fits the column is found. -/
def Unmatched (limit : Nat) : Prop := ∀ s, Storable limit s → contains folding s q = false

end Tables

section Texts
variable {folding : Like.Folding} {q text : String} {limit : Nat}

theorem plain_of_all (plain : q.toList.all (!Like.isSpecial ·) = true) : Plain q := by
  intro c member
  have other := List.all_eq_true.mp plain c member
  rwa [Bool.not_eq_true'] at other

theorem contains_eq : Tables.contains folding text q = folding.ilike text.toList ('%' :: (q.toList ++ ['%'])) := by
  rw [Tables.contains, String.toList_append, String.toList_append, String.toList_ofList]
  rfl

theorem contains_plain (plain : Plain q) : Tables.contains folding text q = true ↔ Literal folding text q := by
  rw [contains_eq, folding.ilike_plain plain]
  rfl

theorem length_of_literal (literal : Literal folding text q) : q.toList.length ≤ text.toList.length := by
  have shorter := literal.length_le
  rwa [List.length_map, List.length_map] at shorter

/-- A text that is found, does not contain what was typed, and is no longer than that. -/
theorem exists_stray (special : ¬Plain q) (fits : q.toList.length ≤ limit) :
    ∃ s, Storable limit s ∧ Tables.contains folding s q = true ∧ ¬Literal folding s q := by
  have special : ∃ c ∈ q.toList, Like.isSpecial c = true := by
    simpa [Plain] using special
  have foreign := folding.not_infix_sample (show Like.isSpecial 'x' = false by decide) special
  have stray (before : List Char) (within : before ++ Like.sample 'x' q.toList <:+: 'x' :: Like.sample 'x' q.toList)
      (storable : Storable limit (String.ofList (before ++ Like.sample 'x' q.toList))) :
      ∃ s, Storable limit s ∧ Tables.contains folding s q = true ∧ ¬Literal folding s q := by
    refine ⟨_, storable, ?_, fun literal => ?_⟩
    · rw [contains_eq, String.toList_ofList]
      exact folding.ilike_sample before
    · rw [Literal, String.toList_ofList] at literal
      exact foreign (literal.trans (within.map _))
  cases blank : (Like.sample 'x' q.toList).all (· = ' ') with
  | true =>
    -- A column takes no blank text, so another character goes in front; there is room for it.
    have spaces : ∀ c ≠ ' ', c ∉ Like.sample 'x' q.toList := by
      intro c other member
      have same := List.all_eq_true.mp blank c member
      exact other (of_decide_eq_true same)
    have shorter := Like.length_sample_lt special (spaces 'x' (by decide)) (spaces '%' (by decide))
    apply stray ['x'] (List.infix_refl _)
    rw [Storable, String.toList_ofList]
    refine ⟨Nat.le_trans (Nat.succ_le_of_lt shorter) fits, ?_⟩
    rw [Db.blank, String.toList_ofList]
    rfl
  | false =>
    apply stray [] (List.suffix_cons _ _).isInfix
    rw [Storable, String.toList_ofList]
    refine ⟨Nat.le_trans Like.length_sample_le fits, ?_⟩
    rw [Db.blank, String.toList_ofList]
    exact blank

/-- What is stored is found exactly if it contains what was typed: either that is plain,
or nothing that fits the column is found. -/
theorem literal_iff_plain : (∀ s, Storable limit s → (Tables.contains folding s q = true ↔ Literal folding s q)) ↔
    Plain q ∨ Tables.Unmatched folding q limit := by
  constructor
  · intro agree
    by_contra neither
    obtain ⟨special, matched⟩ := not_or.mp neither
    obtain ⟨s, storable, found⟩ : ∃ s, Storable limit s ∧ Tables.contains folding s q = true := by
      simpa [Tables.Unmatched] using matched
    have shorter := length_of_literal ((agree s storable).mp found)
    obtain ⟨other, storable', found', foreign⟩ := @exists_stray folding _ _ special (shorter.trans storable.1)
    exact foreign ((agree other storable').mp found')
  · intro plain s storable
    by_cases special : Plain q
    · exact contains_plain special
    · have unmatched := plain.resolve_left special
      refine iff_of_false (by simp [unmatched s storable]) fun literal => ?_
      obtain ⟨other, storable', found, _⟩ :=
        @exists_stray folding _ _ special ((length_of_literal literal).trans storable.1)
      cases found.symm.trans (unmatched other storable')

end Texts

section Matches
variable {Score : Type} {t : Tables Score} {folding : Like.Folding} {q : String}

theorem mem_posTags {tagId : Int} : tagId ∈ t.posTags folding q ↔
    (∃ wt ∈ t.wdTags, wt.id = tagId ∧ Tables.contains folding wt.name q = true) ∨
      ∃ tt ∈ t.wdTagTranslations, tt.tagId = tagId ∧ Tables.contains folding tt.translation q = true := by
  simp only [Tables.posTags, List.mem_dedup, List.mem_append, List.mem_map, List.mem_filter, and_assoc,
    @and_comm (Tables.contains _ _ _ = true)]

theorem mem_matching {wti : WdTagImage Score} :
    wti ∈ t.matching folding q ↔ wti ∈ t.wdTagImages ∧ wti.wdTagId ∈ t.posTags folding q := by
  simp only [Tables.matching, List.mem_flatMap, List.mem_filter, decide_eq_true_iff]
  constructor
  · intro ⟨tagId, found, inside, same⟩
    exact ⟨inside, same ▸ found⟩
  · intro ⟨inside, found⟩
    exact ⟨_, found, inside, rfl⟩

end Matches

section Searches
variable {Score : Type} [LinearOrder Score] {t : Tables Score} {folding : Like.Folding} {q : String}

theorem returned_window {α : Type} {rows : List α} {item : α} {search : (limit offset : Int) → Except String (List α)}
    (same : ∀ limit offset, search limit offset = Engine.window rows limit offset) : Returned search item ↔ item ∈ rows := by
  constructor
  · intro ⟨limit, offset, page, answered, member⟩
    rw [same, Engine.window] at answered
    split at answered
    · cases answered
    · cases answered
      exact List.mem_of_mem_drop (List.mem_of_mem_take member)
  · intro member
    refine ⟨rows.length, 0, rows, ?_, member⟩
    rw [same, Engine.window, if_neg (by omega), Int.toNat_zero, List.drop_zero, Int.toNat_natCast, List.take_length]

theorem returned_title (nonempty : q ≠ "") {post : Post} : Returned ((t.engine folding).searchPostsByTitle q) post ↔
    post ∈ t.posts ∧ Tables.contains folding post.title q = true := by
  apply (returned_window fun _ _ => guarded nonempty).trans
  rw [mem_byId]
  exact List.mem_filter

theorem returned_author (nonempty : q ≠ "") {post : Post} : Returned ((t.engine folding).searchPostsByAuthor q) post ↔
    post ∈ t.posts ∧ ∃ author ∈ t.authors, (author.id, post.id) ∈ t.authorPosts ∧ Tables.contains folding author.name q = true := by
  have rows : (t.engine folding).authored q =
      related (t.authors.filter fun author => Tables.contains folding author.name q) (·.id) t.authorPosts t.posts := rfl
  apply (returned_window fun _ _ => guarded nonempty).trans
  rw [mem_byId, rows, mem_related]
  simp only [List.mem_filter, and_assoc, @and_comm (Tables.contains _ _ _ = true)]

/-- Every image of a match has a best score. -/
theorem mem_imgMatch {imageId : Int} :
    (∃ score, (imageId, score) ∈ t.imgMatch folding q) ↔ ∃ wti ∈ t.matching folding q, wti.imageId = imageId := by
  simp only [Tables.imgMatch, List.mem_filterMap, List.mem_dedup, List.mem_map, Option.map_eq_some_iff, Prod.mk.injEq]
  constructor
  · intro ⟨_, _, ⟨wti, inside, here⟩, _, _, same, _⟩
    exact ⟨wti, inside, here.trans same⟩
  · intro ⟨wti, inside, here⟩
    have scored : wti.score ∈ ((t.matching folding q).filter (·.imageId = imageId)).map (·.score) :=
      List.mem_map_of_mem (List.mem_filter.mpr ⟨inside, decide_eq_true here⟩)
    cases best : (((t.matching folding q).filter (·.imageId = imageId)).map (·.score)).max? with
    | none =>
      rw [List.max?_eq_none_iff.mp best] at scored
      cases scored
    | some score => exact ⟨score, imageId, ⟨wti, inside, here⟩, score, best, rfl, rfl⟩

theorem mem_taggedImages {image : Image} : image ∈ t.taggedImages folding q ↔
    image ∈ t.images ∧ ∃ wti ∈ t.matching folding q, wti.imageId = image.id := by
  rw [← mem_imgMatch, Tables.taggedImages, List.mem_map]
  simp only [(List.perm_insertionSort _ _).mem_iff, List.mem_flatMap, List.mem_map, List.mem_filter, decide_eq_true_iff]
  constructor
  · intro ⟨⟨im, _⟩, ⟨_, found, _, ⟨inside, here⟩, same⟩, image⟩
    cases same
    cases image
    exact ⟨inside, im.2, here ▸ found⟩
  · intro ⟨inside, score, found⟩
    exact ⟨(⟨image.id, score⟩, image), ⟨_, found, image, ⟨inside, rfl⟩, rfl⟩, rfl⟩

theorem returned_image (nonempty : q ≠ "") {image : Image} : Returned ((t.engine folding).searchImagesByTag q) image ↔
    image ∈ t.images ∧ ∃ wti ∈ t.wdTagImages, wti.imageId = image.id ∧
      ((∃ wt ∈ t.wdTags, wt.id = wti.wdTagId ∧ Tables.contains folding wt.name q = true) ∨
        ∃ tt ∈ t.wdTagTranslations, tt.tagId = wti.wdTagId ∧ Tables.contains folding tt.translation q = true) := by
  apply (returned_window fun _ _ => guarded nonempty).trans
  apply Iff.trans mem_taggedImages
  simp only [mem_matching, mem_posTags, and_assoc]
  apply and_congr_right
  intro _
  apply exists_congr
  intro wti
  rw [@and_comm (wti.imageId = image.id)]

end Searches

namespace Tables
variable {Score : Type}

theorem nodup_link : [((1 : Int), (1 : Int))].Nodup := List.nodup_singleton _

theorem untranslated : ∀ tt ∈ ([] : List Translation), Storable 100 tt.translation := List.forall_mem_nil _

/-- One post by one author, and one image with one recognized tag. -/
def lone [Inhabited Score] {title author tag : String} (titled : Storable 255 title) (named : Storable 100 author)
    (recognized : Storable 100 tag) : Tables Score where
  posts := [⟨1, title⟩]
  images := [⟨1, "1.webp", 1, 1⟩]
  authors := [⟨1, author⟩]
  authorPosts := [(1, 1)]
  tags := []
  tagPosts := []
  wdTags := [⟨1, tag⟩]
  wdTagTranslations := []
  wdTagImages := [⟨1, 1, default⟩]
  listPostImages _ := some []
  listPostVideos _ := some []
  keyed := List.nodup_singleton 1
  authorsKeyed := List.nodup_singleton 1
  authorPostsKeyed := nodup_link
  tagsKeyed := List.nodup_nil
  tagPostsKeyed := List.nodup_nil
  titled := List.forall_mem_singleton.mpr titled
  authorsNamed := List.forall_mem_singleton.mpr named
  wdTagsNamed := List.forall_mem_singleton.mpr recognized
  translated := untranslated

theorem storable_short {limit : Nat} (room : 1 ≤ limit) : Storable limit "x" := ⟨room, by decide⟩

variable [LinearOrder Score] [Inhabited Score] (Score) (folding : Like.Folding) {q : String}

theorem titles_literal_iff (nonempty : q ≠ "") : (∀ t : Tables Score, t.TitlesLiteral folding q) ↔
    ∀ s, Storable 255 s → (contains folding s q = true ↔ Literal folding s q) := by
  constructor
  · intro agree title titled
    have short := @storable_short 100 (by decide)
    have found := agree (lone titled short short) ⟨1, title⟩
    rw [returned_title nonempty] at found
    simpa [lone] using found
  · intro agree t post
    rw [returned_title nonempty]
    apply and_congr_right
    intro inside
    exact agree _ (t.titled post inside)

theorem authors_literal_iff (nonempty : q ≠ "") : (∀ t : Tables Score, t.AuthorsLiteral folding q) ↔
    ∀ s, Storable 100 s → (contains folding s q = true ↔ Literal folding s q) := by
  constructor
  · intro agree author named
    have found := agree (lone (storable_short (by decide)) named (storable_short (by decide))) ⟨1, "x"⟩
    rw [returned_author nonempty] at found
    simpa [lone] using found
  · intro agree t post
    rw [returned_author nonempty]
    apply and_congr_right
    intro _
    apply exists_congr
    intro author
    apply and_congr_right
    intro member
    rw [agree _ (t.authorsNamed author member)]

theorem images_literal_iff (nonempty : q ≠ "") : (∀ t : Tables Score, t.ImagesLiteral folding q) ↔
    ∀ s, Storable 100 s → (contains folding s q = true ↔ Literal folding s q) := by
  constructor
  · intro agree tag recognized
    have found := agree (lone (storable_short (by decide)) (storable_short (by decide)) recognized) ⟨1, "1.webp", 1, 1⟩
    rw [returned_image nonempty] at found
    simpa [lone] using found
  · intro agree t image
    have names (tagId : Int) : (∃ wt ∈ t.wdTags, wt.id = tagId ∧ contains folding wt.name q = true) ↔
        ∃ wt ∈ t.wdTags, wt.id = tagId ∧ Literal folding wt.name q := by
      apply exists_congr
      intro wt
      apply and_congr_right
      intro member
      rw [agree _ (t.wdTagsNamed wt member)]
    have translations (tagId : Int) :
        (∃ tt ∈ t.wdTagTranslations, tt.tagId = tagId ∧ contains folding tt.translation q = true) ↔
          ∃ tt ∈ t.wdTagTranslations, tt.tagId = tagId ∧ Literal folding tt.translation q := by
      apply exists_congr
      intro tt
      apply and_congr_right
      intro member
      rw [agree _ (t.translated tt member)]
    rw [returned_image nonempty]
    simp only [names, translations]

/-- The searches find in every database what contains the text they are given if and
only if the text is plain, or no text that fits the column is found at all. Both texts
may hold NUL here, which no text of Postgres does; it is a character like any other. -/
theorem searches_literal_iff (folding : Like.Folding) (q : String) (nonempty : q ≠ "") :
    ((∀ t : Tables Score, t.TitlesLiteral folding q) ↔ Plain q ∨ Unmatched folding q 255) ∧
    ((∀ t : Tables Score, t.AuthorsLiteral folding q) ↔ Plain q ∨ Unmatched folding q 100) ∧
    ((∀ t : Tables Score, t.ImagesLiteral folding q) ↔ Plain q ∨ Unmatched folding q 100) := by
  rw [titles_literal_iff Score folding nonempty, authors_literal_iff Score folding nonempty,
    images_literal_iff Score folding nonempty]
  exact ⟨literal_iff_plain, literal_iff_plain, literal_iff_plain⟩

/-- An underscore finds a letter. -/
theorem underscore_found : (duet.engine .ascii).searchPostsByTitle "d_wn" 1 0 = .ok [⟨1, "dawn"⟩] ∧
    ¬Literal .ascii "dawn" "d_wn" ∧ ¬duet.TitlesLiteral .ascii "d_wn" := by
  have answered : (duet.engine .ascii).searchPostsByTitle "d_wn" 1 0 = .ok [⟨1, "dawn"⟩] := by decide +kernel
  have foreign : ¬Literal .ascii "dawn" "d_wn" := by
    unfold Literal
    decide +kernel
  refine ⟨answered, foreign, fun literal => foreign ?_⟩
  exact ((literal ⟨1, "dawn"⟩).mp ⟨1, 0, _, answered, List.mem_singleton_self _⟩).2

theorem dawn_literal : duet.TitlesLiteral .ascii "dawn" ∧ duet.AuthorsLiteral .ascii "ANNA" ∧ duet.ImagesLiteral .ascii "sky" :=
  ⟨(searches_literal_iff F32 .ascii "dawn" (by decide)).1.mpr (.inl (plain_of_all (by decide +kernel))) duet,
    (searches_literal_iff F32 .ascii "ANNA" (by decide)).2.1.mpr (.inl (plain_of_all (by decide +kernel))) duet,
    (searches_literal_iff F32 .ascii "sky" (by decide)).2.2.mpr (.inl (plain_of_all (by decide +kernel))) duet⟩

end Tables

end LetsEmbed.SearchEngine
