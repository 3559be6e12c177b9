import LetsEmbed.Proofs.RecordTags
import LetsEmbed.Proofs.SearchTablesLiteral
import LetsEmbed.Translations

/-! What embed has tagged is what the tag search finds, by the names of the tags and by
their translations. -/

namespace LetsEmbed.Translations
open Record (Collation FromInference Grows Storable Tagged WdTag inferredTags)
open Results (Image)
open SearchEngine (Returned)
open Systems

variable {Tensor Score Half : Type} {collation : Collation} {half : Tensor → Half} {s : State Tensor Score Half}
  {past : List (Event (State Tensor Score Half) (Input Tensor Score) Unit)}

section Runs

/-- Imports do not get in the way of writes. -/
theorem db_run (run : (machine collation half).Run (fun _ _ _ => True) empty past s) :
    ∃ writes, (Record.machine collation half Record.Tables.empty).Run (fun _ _ _ => True) ⟨Record.Tables.empty, []⟩ writes s.db := by
  apply run.invariant fun _ (s : State Tensor Score Half) => ∃ writes,
    (Record.machine collation half Record.Tables.empty).Run (fun _ _ _ => True) ⟨Record.Tables.empty, []⟩ writes s.db
  · exact ⟨[], .start⟩
  · intro _ s input _ _ ⟨writes, ran⟩
    have still (same : (step collation half s input).db = s.db) : ∃ writes,
        (Record.machine collation half Record.Tables.empty).Run (fun _ _ _ => True) ⟨Record.Tables.empty, []⟩ writes
          (step collation half s input).db := by
      rw [same]
      exact ⟨writes, ran⟩
    cases input with
    | record input => exact ⟨_, ran.step trivial⟩
    | upsertTranslations given =>
      apply still
      rw [step]
      split <;> rfl
    | commit i =>
      apply still
      rw [step]
      split <;> rfl
    | abort i => exact still rfl

theorem mem_insert {table added : List (Nat × String)} {row : Nat × String} :
    row ∈ insert table added ↔ row ∈ table ∨ row ∈ added := by
  induction added generalizing table with
  | nil => simp [insert]
  | cons first rest ih =>
    have one : row ∈ (if first ∈ table then table else table ++ [first]) ↔ row ∈ table ∨ row = first := by
      split
      · next there => exact ⟨.inl, fun either => either.elim id fun same => same ▸ there⟩
      · rw [List.mem_append, List.mem_singleton]
    rw [insert, List.foldl_cons]
    change row ∈ insert _ rest ↔ _
    rw [ih, one, List.mem_cons, or_assoc]

/-- A text that was given as a translation of a tag. -/
def Given (past : List (Event (State Tensor Score Half) (Input Tensor Score) Unit)) (name text : String) : Prop :=
  ∃ event ∈ past, ∃ given, event.input = .upsertTranslations given ∧ ∃ v ∈ given, v.name = name ∧ ∃ x ∈ v.translations,
    Db.assign textLimit (btrim x) = some text

def Sourced (past : List (Event (State Tensor Score Half) (Input Tensor Score) Unit)) (tags : List WdTag)
    (row : Nat × String) : Prop :=
  ∃ tag ∈ tags, tag.id = row.1 ∧ Given past tag.name row.2

theorem Sourced.mono {tags more : List WdTag} {row : Nat × String} (sourced : Sourced past tags row)
    (event : Event (State Tensor Score Half) (Input Tensor Score) Unit) (grows : ∀ tag ∈ tags, tag ∈ more) :
    Sourced (event :: past) more row := by
  obtain ⟨tag, here, same, before, member, rest⟩ := sourced
  exact ⟨tag, grows tag here, same, before, List.mem_cons_of_mem _ member, rest⟩

theorem mem_mapM {α β : Type} {f : α → Option β} {items : List α} {results : List β} (all : items.mapM f = some results) :
    ∀ result ∈ results, ∃ item ∈ items, f item = some result := by
  induction items generalizing results with
  | nil =>
    obtain rfl := Option.some.inj all
    exact List.forall_mem_nil _
  | cons first rest ih =>
    simp only [List.mapM_cons, bind, pure, Option.bind_eq_some_iff, Option.some.injEq] at all
    obtain ⟨result, here, more, later, rfl⟩ := all
    rw [List.forall_mem_cons]
    refine ⟨⟨first, List.mem_cons_self, here⟩, fun other member => ?_⟩
    obtain ⟨item, found, same⟩ := ih later other member
    exact ⟨item, List.mem_cons_of_mem _ found, same⟩

theorem sourced_rows {tags : List WdTag} {given : List Translation} {added : List (Nat × String)}
    (selects : rows tags given = some added) {event : Event (State Tensor Score Half) (Input Tensor Score) Unit}
    (asked : event.input = .upsertTranslations given) : ∀ row ∈ added, Sourced (event :: past) tags row := by
  intro row member
  obtain ⟨⟨id, text⟩, chosen, assigned⟩ := mem_mapM selects row member
  obtain ⟨stored, fits, rfl⟩ := Option.map_eq_some_iff.mp assigned
  obtain ⟨v, listed, chosen⟩ := List.mem_flatMap.mp chosen
  obtain ⟨tag, found, chosen⟩ := List.mem_flatMap.mp chosen
  obtain ⟨here, named⟩ := List.mem_filter.mp found
  obtain ⟨trimmed, kept, same⟩ := List.mem_map.mp chosen
  obtain ⟨rfl, rfl⟩ := Prod.mk.inj same
  obtain ⟨x, offered, rfl⟩ := List.mem_map.mp (List.mem_filter.mp kept).1
  exact ⟨tag, here, rfl, event, List.mem_cons_self, given, asked, v, listed, (of_decide_eq_true named).symm, x, offered, fits⟩

/-- Every translation that is stored, or about to be, was given for the name of its tag. -/
structure Backed (past : List (Event (State Tensor Score Half) (Input Tensor Score) Unit))
    (s : State Tensor Score Half) : Prop where
  imports : ∀ added ∈ s.imports, ∀ row ∈ added, Sourced past s.db.tables.wdTags row
  table : ∀ row ∈ s.table, Sourced past s.db.tables.wdTags row

/-- Where no tag is lost, rows may move from an import to the table. -/
theorem Backed.carry {after : State Tensor Score Half} (backed : Backed past s)
    (event : Event (State Tensor Score Half) (Input Tensor Score) Unit)
    (grows : ∀ tag ∈ s.db.tables.wdTags, tag ∈ after.db.tables.wdTags) (imports : ∀ added ∈ after.imports, added ∈ s.imports)
    (table : ∀ row ∈ after.table, row ∈ s.table ∨ ∃ added ∈ s.imports, row ∈ added) : Backed (event :: past) after where
  imports added member row inside := (backed.imports added (imports added member) row inside).mono event grows
  table := by
    intro row member
    rcases table row member with old | ⟨added, waiting, new⟩
    · exact (backed.table row old).mono event grows
    · exact (backed.imports added waiting row new).mono event grows

theorem Backed.step (backed : Backed past s) (input : Input Tensor Score) :
    Backed ((machine collation half).event s input :: past) (step collation half s input) := by
  cases input with
  | record input =>
    exact backed.carry _ (@Record.step_grows _ _ _ collation half s.db input).tags (fun _ => id) (fun _ => .inl)
  | upsertTranslations given =>
    rw [Translations.step]
    split
    · next added selects =>
      have kept : Backed ((machine collation half).event s (.upsertTranslations given) :: past) s :=
        backed.carry _ (fun _ => id) (fun _ => id) (fun _ => .inl)
      refine ⟨fun other member => ?_, kept.table⟩
      rcases List.mem_append.mp member with old | new
      · exact kept.imports other old
      · rw [List.mem_singleton.mp new]
        exact sourced_rows selects rfl
    · exact backed.carry _ (fun _ => id) (fun _ => id) (fun _ => .inl)
  | commit i =>
    rw [Translations.step]
    split
    · next added here =>
      refine backed.carry _ (fun _ => id) (fun _ => List.mem_of_mem_eraseIdx) fun row member => ?_
      exact (mem_insert.mp member).imp_right fun new => ⟨added, List.mem_of_getElem? here, new⟩
    · exact backed.carry _ (fun _ => id) (fun _ => id) (fun _ => .inl)
  | abort i => exact backed.carry _ (fun _ => id) (fun _ => List.mem_of_mem_eraseIdx) (fun _ => .inl)

theorem Backed.run (run : (machine collation half).Run (fun _ _ _ => True) empty past s) : Backed past s := by
  apply run.invariant Backed
  · exact ⟨List.forall_mem_nil _, List.forall_mem_nil _⟩
  · intro _ _ input _ _ backed
    exact backed.step input

end Runs

section Search
variable [LinearOrder Score] {t : SearchEngine.Tables Score} {folding : Like.Folding} {q name : String} {image : Image}

/-- The tag of this name is found by what was typed. -/
def Called (folding : Like.Folding) (s : State Tensor Score Half) (name q : String) : Prop :=
  SearchEngine.Tables.contains folding name q = true ∨ ∃ tag ∈ s.db.tables.wdTags, tag.name = name ∧
    ∃ row ∈ s.table, row.1 = tag.id ∧ SearchEngine.Tables.contains folding row.2 q = true

/-- A tag of this name, or a text that was given as its translation, contains what was typed. -/
def Named (folding : Like.Folding) (past : List (Event (State Tensor Score Half) (Input Tensor Score) Unit))
    (name q : String) : Prop :=
  SearchEngine.Tables.contains folding name q = true ∨
    ∃ text, Given past name text ∧ SearchEngine.Tables.contains folding text q = true

/-- A tagged image is found by whatever its tag is called. -/
theorem returned_of_tagged (names : (s.db.tables.wdTags.map (·.name)).Nodup) (reads : Reads s t) (known : image ∈ t.images)
    (nonempty : q ≠ "") (tagged : Tagged s.db.tables image.id name) (called : Called folding s name q) :
    Returned ((t.engine folding).searchImagesByTag q) image := by
  obtain ⟨tag, here, rfl, link, there, ofTag, ofImage⟩ := tagged
  refine (SearchEngine.returned_image nonempty).mpr ⟨known, ⟨link.wdTag, link.image, link.score⟩, ?_, ofImage, ?_⟩
  · rw [reads.wdTagImages]
    exact List.mem_map_of_mem there
  · rcases called with contains | ⟨other, stored, same, row, member, ofOther, contains⟩
    · refine .inl ⟨⟨tag.id, tag.name⟩, ?_, congrArg Int.ofNat ofTag.symm, contains⟩
      rw [reads.wdTags]
      exact List.mem_map_of_mem here
    · obtain rfl := List.inj_on_of_nodup_map names stored here same
      refine .inr ⟨⟨row.1, row.2⟩, ?_, congrArg Int.ofNat (ofOther.trans ofTag.symm), contains⟩
      rw [reads.wdTagTranslations]
      exact List.mem_map_of_mem member

/-- What is found was inferred, under a name that is found. -/
theorem named_of_returned (ids : (s.db.tables.wdTags.map (·.id)).Nodup)
    (links : ∀ link ∈ s.db.tables.wdTagImages, FromInference s.db link)
    (sourced : ∀ row ∈ s.table, Sourced past s.db.tables.wdTags row) (reads : Reads s t) (nonempty : q ≠ "")
    (returned : Returned ((t.engine folding).searchImagesByTag q) image) :
    ∃ session ∈ s.db.sessions, ∃ name score, (image.id, name, score) ∈ inferredTags session.res ∧ Named folding past name q := by
  obtain ⟨_, wti, linked, ofImage, found⟩ := (SearchEngine.returned_image nonempty).mp returned
  rw [reads.wdTagImages] at linked
  obtain ⟨link, there, rfl⟩ := List.mem_map.mp linked
  obtain ⟨session, started, tag, here, ofTag, inferred⟩ := links link there
  dsimp only at ofImage found
  rw [ofImage] at inferred
  refine ⟨session, started, tag.name, link.score, inferred, ?_⟩
  rcases found with ⟨wt, listed, same, contains⟩ | ⟨tt, listed, same, contains⟩
  · rw [reads.wdTags] at listed
    obtain ⟨other, stored, rfl⟩ := List.mem_map.mp listed
    obtain rfl := List.inj_on_of_nodup_map ids stored here ((Int.ofNat.inj same).trans ofTag.symm)
    exact .inl contains
  · rw [reads.wdTagTranslations] at listed
    obtain ⟨row, stored, rfl⟩ := List.mem_map.mp listed
    obtain ⟨other, known, ofRow, given⟩ := sourced row stored
    obtain rfl := List.inj_on_of_nodup_map ids known here (ofRow.trans ((Int.ofNat.inj same).trans ofTag.symm))
    exact .inr ⟨row.2, given, contains⟩

/-- From the writes of `record` and imports of translations, in any order and at any time, to
the tag search: a completed image has the embeddings of one write, and is found by every tag
inferred for it in that write, by name and by translation; and an image that is found has been inferred to have a tag whose
name, or a translation given for it, contains what was typed. -/
theorem search_finds_inferred (run : (machine collation half).Run (fun _ _ _ => True) empty past s) (reads : Reads s t)
    (known : image ∈ t.images) (nonempty : q ≠ "") :
    (∀ stored, s.db.tables.images image.id = some stored → stored.status = .completed →
      ∃ session ∈ s.db.sessions, ∃ tags clip dino, (image.id, some (tags, clip, dino)) ∈ session.res ∧
        stored = ⟨.completed, some (half clip), some (half dino)⟩ ∧ ∀ tag score, (tag, score) ∈ tags → Storable tag.name → Called folding s tag.name q →
          Returned ((t.engine folding).searchImagesByTag q) image) ∧
    (Returned ((t.engine folding).searchImagesByTag q) image →
      ∃ session ∈ s.db.sessions, ∃ name score, (image.id, name, score) ∈ inferredTags session.res ∧ Named folding past name q) := by
  obtain ⟨writes, ran⟩ := db_run run
  have sound := Record.sound_of_run ran
  have numbered := Record.numbered_of_run ran
  refine ⟨fun stored found completed => ?_, fun returned => ?_⟩
  · obtain ⟨session, started, tags, clip, dino, inferred, embedded, tagged⟩ := sound.completed image.id stored found completed
    refine ⟨session, started, tags, clip, dino, inferred, embedded, fun tag score member storable called => ?_⟩
    exact returned_of_tagged numbered.names reads known nonempty (tagged tag score member storable) called
  · exact named_of_returned numbered.ids sound.links (Backed.run run).table reads nonempty returned

end Search

section Example
open Machine

/-- A tag is translated between the write that adds it and the one that links it. -/
def translated : List (Input Nat Nat) :=
  ([.arrive 1, .claim [1], .start [Record.tagged 1 7], .advance 0 0, .advance 0 0, .advance 0 0].map .record) ++
    [.upsertTranslations [⟨"cat", [" neko ", "  "]⟩], .commit 0] ++
    ([.advance 0 0, .advance 0 0, .advance 0 0, .advance 0 0, .advance 0 0, .advance 0 0].map .record)

theorem nothing_linked : ([] : List (Int × Int)).Nodup := List.nodup_nil

theorem storable_names : SearchEngine.Storable 100 "cat" ∧ SearchEngine.Storable 100 "neko" := by
  decide +kernel

def searched : SearchEngine.Tables Nat where
  posts := []
  images := [⟨1, "tabby", 3, 4⟩]
  authors := []
  authorPosts := []
  tags := []
  tagPosts := []
  wdTags := [⟨1, "cat"⟩]
  wdTagTranslations := [⟨1, "neko"⟩]
  wdTagImages := [⟨1, 1, 7⟩]
  listPostImages _ := some []
  listPostVideos _ := some []
  keyed := List.nodup_nil
  authorsKeyed := List.nodup_nil
  authorPostsKeyed := nothing_linked
  tagsKeyed := List.nodup_nil
  tagPostsKeyed := nothing_linked
  titled := List.forall_mem_nil _
  authorsNamed := List.forall_mem_nil _
  wdTagsNamed := List.forall_mem_singleton.mpr storable_names.1
  translated := List.forall_mem_singleton.mpr storable_names.2

theorem search_finds_inferred_translated :
    let s := ((machine Record.codePoints (· + 100)).play ([], empty) translated).2
    Reads s searched ∧ Returned ((searched.engine .ascii).searchImagesByTag "NEKO") ⟨1, "tabby", 3, 4⟩ := by
  intro s
  have run : (machine Record.codePoints (· + 100)).Run (fun _ _ _ => True) empty _ s :=
    Run.start.play translated (permitted_always (fun _ _ _ => trivial) _ _)
  have stored : s.table = [(1, "neko")] := by decide +kernel
  have tags : s.db.tables.wdTags = [⟨1, "cat"⟩] := by decide +kernel
  have reads : Reads s searched := ⟨by rw [tags]; rfl, rfl, by rw [stored]; rfl⟩
  have sessions : s.db.sessions.map (·.res) = [[Record.tagged 1 7]] := rfl
  have known : (⟨1, "tabby", 3, 4⟩ : Image) ∈ searched.images := List.mem_singleton_self _
  obtain ⟨session, started, inferred, clip, dino, member, _, found⟩ :=
    (@search_finds_inferred _ _ _ _ _ _ _ _ _ .ascii "NEKO" _ run reads known (by decide)).1 ⟨.completed, some 110, some 120⟩ rfl rfl
  have results : session.res = [Record.tagged 1 7] := by
    have listed := List.mem_map_of_mem (f := (·.res)) started
    rw [sessions] at listed
    exact List.mem_singleton.mp listed
  rw [results] at member
  have same := (Prod.mk.inj (List.mem_singleton.mp member)).2
  obtain rfl := (Prod.mk.inj (Option.some.inj same)).1
  refine ⟨reads, found ⟨.general, "cat"⟩ 7 (List.mem_singleton_self _) (by decide +kernel)
    (.inr ⟨⟨1, "cat"⟩, ?_, rfl, (1, "neko"), ?_, rfl, ?_⟩)⟩
  · rw [tags]
    exact List.mem_singleton_self _
  · rw [stored]
    exact List.mem_singleton_self _
  · decide +kernel

end Example
end LetsEmbed.Translations
