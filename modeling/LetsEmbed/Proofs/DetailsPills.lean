import LetsEmbed.Details
import LetsEmbed.Proofs.SearchBarShown
import LetsEmbed.Proofs.SearchTablesLiteral

/-! The pills of an image lead back to it. -/

namespace LetsEmbed.Details
open Results (Image Item Request SearchResponse State items readParams)
open SearchBar SearchEngine Systems Text Search

section Links
variable {queryMap : (url key : String) → Option String} {name : String}

def pillFields (mode : Results.Mode) (name : String) : List Field :=
  [⟨"mode", mode.asStr, mode.asStr⟩, ⟨"q", name, encodePath name⟩, ⟨"limit", "50", "50"⟩]

theorem renderPill_eq (mode : Results.Mode) (name : String) :
    renderPill name mode.asStr = "/" ++ "?" ++ query (pillFields mode name) := by
  rw [renderPill, ← String.toList_inj]
  simp [query, pillFields]

theorem pillFields_sound (mode : Results.Mode) (name : String) : ∀ field ∈ pillFields mode name, field.Sound := by
  obtain ⟨mode', q, limit, _⟩ := named
  simp only [pillFields, List.forall_mem_cons]
  exact ⟨sound_kept mode' (unreserved_asStr _), sound_encoded q plain_path (Pages.encodePath_toList name),
    sound_kept limit (@unreserved_toString 50), List.forall_mem_nil _⟩

theorem pillFields_values (mode : Results.Mode) (name key : String) :
    searchParams (Gateway.searchOf (renderPill name mode.asStr)) key =
      ((pillFields mode name).filter (·.name = key)).map (·.value) := by
  rw [renderPill_eq]
  exact searchParams_query (pillFields_sound mode name) (by simp [pillFields]) root_plain

/-- A pill searches for the name on it. -/
theorem read_pill (reads : Reads queryMap) (mode : Results.Mode) (plain : '%' ∉ name.toList) :
    readParams (queryMap (renderPill name mode.asStr)) = ⟨mode, name, 50, 0⟩ := by
  have own : queryMap (renderPill name mode.asStr) "mode" = some mode.asStr :=
    reads.value ((pillFields_values ..).trans rfl) (unreserved_asStr _)
  have text : queryMap (renderPill name mode.asStr) "q" = some name :=
    (reads _ _).1 name ((pillFields_values ..).trans rfl) plain
  have limit : queryMap (renderPill name mode.asStr) "limit" = some (toString 50) :=
    reads.value ((pillFields_values ..).trans rfl) unreserved_toString
  have seed : queryMap (renderPill name mode.asStr) "seed" = none := (reads _ _).2 ((pillFields_values ..).trans rfl)
  rw [readParams, own, text, limit, seed, Option.bind_some, parseI64_toString (by decide)]
  simp [parse_asStr]

end Links

section Details
variable {Score : Type} [LinearOrder Score] {t : Tables Score} {postImages : List (Int × Int)} {pick : List Post → Option Post}
  {id : Int} {details : ImageDetails} {folding : Like.Folding}

/-- A post's list, if it loads, is that of its links. -/
def ListsLinked (t : Tables Score) (postImages : List (Int × Int)) : Prop :=
  ∀ postId images, t.listPostImages postId = some images → images.Perm (listPostImages t postImages postId)

theorem image_of_details (found : imageDetails t postImages pick id = some details) :
    details.image ∈ t.images ∧ details.image.id = id := by
  obtain ⟨image, here, made⟩ := Option.bind_eq_some_iff.mp found
  cases made
  exact ⟨List.mem_of_find?_eq_some here, by simpa using List.find?_some here⟩

theorem tag_of_details (found : imageDetails t postImages pick id = some details) {tag : Tag} (shown : tag ∈ details.tags) :
    tag ∈ t.wdTags ∧ ∃ wti ∈ t.wdTagImages, wti.imageId = id ∧ wti.wdTagId = tag.id := by
  obtain ⟨image, here, made⟩ := Option.bind_eq_some_iff.mp found
  cases made
  obtain ⟨scored, member, rfl⟩ := List.mem_map.mp shown
  rw [(List.perm_insertionSort _ _).mem_iff] at member
  obtain ⟨wti, linked, member⟩ := List.mem_flatMap.mp member
  obtain ⟨tag, named, rfl⟩ := List.mem_map.mp member
  simp only [List.mem_filter, decide_eq_true_eq] at linked named
  exact ⟨named.1, wti, linked.1, linked.2, named.2.symm⟩

theorem author_of_details (found : imageDetails t postImages pick id = some details)
    (picks : ∀ posts post, pick posts = some post → post ∈ posts) {author : Author} (shown : author ∈ details.authors) :
    author ∈ t.authors ∧ ∃ post ∈ t.posts, details.post = some post ∧ (author.id, post.id) ∈ t.authorPosts ∧
      (post.id, id) ∈ postImages := by
  obtain ⟨image, here, made⟩ := Option.bind_eq_some_iff.mp found
  cases made
  dsimp only at shown ⊢
  split at shown
  next post picked =>
    have linked := picks _ _ picked
    simp only [List.mem_flatMap, List.mem_filter, decide_eq_true_eq] at linked shown
    obtain ⟨⟨first, second⟩, ⟨there, rfl⟩, inside, rfl⟩ := linked
    obtain ⟨⟨other, work⟩, ⟨wrote, rfl⟩, listed, rfl⟩ := shown
    exact ⟨listed, post, inside, picked, wrote, there⟩
  next => cases shown

end Details

section Search
variable {Score : Type} [LinearOrder Score] {t : Tables Score} {postImages : List (Int × Int)} {pick : List Post → Option Post}
  {id : Int} {details : ImageDetails} {folding : Like.Folding} {name : String}

/-- The name has nothing in it that the router or the pattern would take away. -/
def Kept (name : String) : Prop := '%' ∉ name.toList ∧ '\\' ∉ name.toList

theorem contains_self (kept : Kept name) : Tables.contains folding name name = true := by
  rw [contains_eq]
  exact folding.ilike_self kept.2

theorem nonempty_of_storable {limit : Nat} (storable : Storable limit name) : name ≠ "" := by
  rintro rfl
  have blank : Db.blank "" = true := by decide
  exact absurd (blank.symm.trans storable.2) Bool.noConfusion

theorem tagged_self (found : imageDetails t postImages pick id = some details) {tag : Tag} (shown : tag ∈ details.tags)
    (kept : Kept tag.name) : Item.image details.image ∈ (wanted (t.engine folding) .tag tag.name).filter Item.covered := by
  obtain ⟨inside, own⟩ := image_of_details found
  obtain ⟨named, wti, linked, ofImage, ofTag⟩ := tag_of_details found shown
  have listing : ¬(tag.name = "" ∨ Results.Mode.tag = .author ∨ Results.Mode.tag = .title) := by
    simp [nonempty_of_storable (t.wdTagsNamed tag named)]
  refine List.mem_filter.mpr ⟨?_, rfl⟩
  rw [wanted, if_neg listing]
  apply List.mem_map_of_mem
  refine mem_taggedImages.mpr ⟨inside, wti, mem_matching.mpr ⟨linked, ?_⟩, ofImage.trans own.symm⟩
  exact mem_posTags.mpr (.inl ⟨tag, named, ofTag.symm, contains_self kept⟩)

theorem authored_self (found : imageDetails t postImages pick id = some details)
    (picks : ∀ posts post, pick posts = some post → post ∈ posts) (lists : ListsLinked t postImages) {author : Author}
    (shown : author ∈ details.authors) (kept : Kept author.name) (listable : Listable (t.engine folding) .author author.name) :
    ∃ item : Results.PostItem, Item.post item ∈ (wanted (t.engine folding) .author author.name).filter Item.covered ∧
      details.post.map (·.id) = some item.id ∧ details.image ∈ item.images := by
  obtain ⟨inside, own⟩ := image_of_details found
  obtain ⟨listed, post, there, chosen, wrote, linked⟩ := author_of_details found picks shown
  have nonempty := nonempty_of_storable (t.authorsNamed author listed)
  have matched : post ∈ Results.matching (t.engine folding) .author author.name := by
    have rows : Results.matching (t.engine folding) .author author.name =
        related (t.authors.filter fun other => Tables.contains folding other.name author.name) (·.id) t.authorPosts t.posts := by
      rw [Results.matching, if_neg nonempty, if_pos rfl]
      rfl
    rw [rows]
    exact mem_related.mpr ⟨there, author, List.mem_filter.mpr ⟨listed, contains_self kept⟩, wrote⟩
  obtain ⟨item, loaded⟩ :=
    Option.isSome_iff_exists.mp (Results.detailed_isSome.mpr (listable.loads (.inr (.inl rfl)) post matched))
  obtain ⟨images, answered, rest⟩ := Option.bind_eq_some_iff.mp loaded
  obtain ⟨_, _, made⟩ := Option.bind_eq_some_iff.mp rest
  cases made
  have image : details.image ∈ images := by
    rw [(lists _ _ answered).mem_iff, listPostImages]
    refine List.mem_flatMap.mpr ⟨(post.id, id), List.mem_filter.mpr ⟨linked, decide_eq_true rfl⟩, ?_⟩
    exact List.mem_filter.mpr ⟨inside, decide_eq_true own⟩
  refine ⟨⟨post.id, images⟩, List.mem_filter.mpr ⟨?_, ?_⟩, by rw [chosen]; rfl, image⟩
  · rw [wanted, if_pos (.inr (.inl rfl))]
    apply List.mem_map_of_mem
    exact List.mem_filterMap.mpr ⟨post, Results.byId_perm.mem_iff.mpr matched, loaded⟩
  · cases images with
    | nil => cases image
    | cons first rest => rfl

end Search

section Example

theorem portrait_titled : Storable 255 "At the window" := by decide +kernel

theorem portrait_authored : Storable 100 "Ada & Bo/Co" := by decide +kernel

theorem portrait_tagged : Storable 100 "long_hair + hat" := by decide +kernel

/-- One post with one image. -/
def portrait : Tables Nat :=
  let stored : Tables Nat := Tables.lone portrait_titled portrait_authored portrait_tagged
  { stored with listPostImages := fun postId => some (listPostImages stored [(1, 1)] postId) }

def portraitDetails : ImageDetails :=
  ⟨⟨1, "1.webp", 1, 1⟩, some ⟨1, "At the window"⟩, [⟨1, "Ada & Bo/Co"⟩], [⟨1, "long_hair + hat"⟩]⟩

def followed (link : String) : List (Event State Results.Input Unit) × State :=
  let m := Results.machine (fun _ _ _ => 100) (served (portrait.engine .ascii)) (routed link) none 2 300
  m.play ([], m.initial) [.react, .launch 1, .answer 1]

end Example
end LetsEmbed.Details
