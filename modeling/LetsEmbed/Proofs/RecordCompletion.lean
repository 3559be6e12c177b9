import Mathlib.Data.String.Basic
import LetsEmbed.Proofs.RecordSteps

/-! No image is completed before its tags are linked, whatever other writes do to the
same tags and wherever a write fails. -/

namespace LetsEmbed.Record
open Systems Pipeline

variable {Tensor Score Half : Type} {collation : Collation} {half : Tensor → Half} {s : State Tensor Score Half}
  {i : Nat} {tables more : Tables Score Half} {res : List (Int × Option (Inferred Tensor Score))}

/-- A tag name that has a row of its own. -/
def Storable (name : String) : Prop := Db.blank name = false ∧ name.toList.length ≤ nameLimit

instance Storable.decidable (name : String) : Decidable (Storable name) := inferInstanceAs (Decidable (_ ∧ _))

theorem Storable.assign {name : String} (storable : Storable name) : Db.assign nameLimit name = some name := by
  rw [Db.assign, if_pos storable.2]

def Named (tables : Tables Score Half) (name : String) : Prop := ∃ tag ∈ tables.wdTags, tag.name = name

def Tagged (tables : Tables Score Half) (id : Int) (name : String) : Prop :=
  ∃ tag ∈ tables.wdTags, tag.name = name ∧ ∃ link ∈ tables.wdTagImages, link.wdTag = tag.id ∧ link.image = id

theorem Named.mono {name : String} (named : Named tables name) (grows : Grows tables more) : Named more name := by
  obtain ⟨tag, here, same⟩ := named
  exact ⟨tag, grows.tags tag here, same⟩

theorem Tagged.mono {id : Int} {name : String} (tagged : Tagged tables id name) (grows : Grows tables more) :
    Tagged more id name := by
  obtain ⟨tag, here, same, link, there, ofTag, ofImage⟩ := tagged
  obtain ⟨kept, still, sameTag, sameImage⟩ := grows.links link there
  exact ⟨tag, grows.tags tag here, same, kept, still, sameTag.trans ofTag, sameImage.trans ofImage⟩

/-- An image of `res` with all its tags linked. -/
def Linked (tables : Tables Score Half) (res : List (Int × Option (Inferred Tensor Score))) : Prop :=
  ∀ id name score, (id, name, score) ∈ inferredTags res → Storable name → Tagged tables id name

/-! ## Each write by itself -/

/-- What a write has done that has these statements left. -/
structure Passed (half : Tensor → Half) (tables : Tables Score Half) (res : List (Int × Option (Inferred Tensor Score)))
    (rest : List Statement) : Prop where
  suffix : rest <:+ statements (record half res)
  named : .insertTags ∉ rest → ∀ id name score, (id, name, score) ∈ inferredTags res → Storable name → Named tables name
  linked : .upsertLinks ∉ rest → Linked tables res

/-- A row that a statement may hold, or be about to. -/
def Row.Of (half : Tensor → Half) (tables : Tables Score Half) (res : List (Int × Option (Inferred Tensor Score)))
    (statement : Statement) : Row Score → Prop
  | .tag _ => statement = .insertTags
  | .link row => statement = .upsertLinks ∧ row ∈ linkItems tables (record half res)
  | .image id entry => statement = .completeImages ∧ (record half res).completedIds[entry]? = some id ∨
    statement = .resetImages ∧ (record half res).failedIds[entry]? = some id

/-- What a statement is to see through: each is done, held, or still to come. -/
structure Working (half : Tensor → Half) (tables : Tables Score Half) (res : List (Int × Option (Inferred Tensor Score)))
    (statement : Statement) (pending : List (Item Score)) (held : List (Row Score)) : Prop where
  pendingOf : ∀ item ∈ pending, ∀ id row, item.row id = some row → row.Of half tables res statement
  heldOf : ∀ row ∈ held, row.Of half tables res statement
  naming : statement = .insertTags → ∀ id name score, (id, name, score) ∈ inferredTags res → Storable name →
    Named tables name ∨ (∃ row, .tag row ∈ held ∧ row.name = name) ∨ .tag name ∈ pending
  linking : statement = .upsertLinks → ∀ id name score, (id, name, score) ∈ inferredTags res → Storable name →
    ∃ tag ∈ tables.wdTags, tag.name = name ∧
      ((∃ row, .link row ∈ held ∧ row.wdTag = tag.id ∧ row.image = id) ∨
        ∃ row, .link row ∈ pending ∧ row.wdTag = tag.id ∧ row.image = id)

def Kept (half : Tensor → Half) (tables : Tables Score Half) (res : List (Int × Option (Inferred Tensor Score))) :
    Stage Score → Prop
  | .ready rest => Passed half tables res rest
  | .running statement pending held rest => Passed half tables res (statement :: rest) ∧ Working half tables res statement pending held
  | .failed => True

section Grow
variable (grows : Grows tables more)
include grows

theorem Passed.mono {rest : List Statement} (passed : Passed half tables res rest) : Passed half more res rest where
  suffix := passed.suffix
  named gone id name score member storable := (passed.named gone id name score member storable).mono grows
  linked gone id name score member storable := (passed.linked gone id name score member storable).mono grows

theorem Row.Of.mono {statement : Statement} {row : Row Score} (of : row.Of half tables res statement) :
    row.Of half more res statement := by
  cases row with
  | tag row => exact of
  | image id entry => exact of
  | link row =>
    refine of.imp id fun member => ?_
    obtain ⟨tag, here, found⟩ := mem_linkItems.mp member
    exact mem_linkItems.mpr ⟨tag, grows.tags tag here, found⟩

theorem Working.mono {statement : Statement} {pending : List (Item Score)} {held : List (Row Score)}
    (working : Working half tables res statement pending held) : Working half more res statement pending held where
  pendingOf item member id row made := (working.pendingOf item member id row made).mono grows
  heldOf row member := (working.heldOf row member).mono grows
  naming inserts id name score member storable :=
    (working.naming inserts id name score member storable).imp (·.mono grows) fun going => going
  linking links id name score member storable := by
    obtain ⟨tag, here, found⟩ := working.linking links id name score member storable
    exact ⟨tag, grows.tags tag here, found⟩

theorem Kept.mono {stage : Stage Score} (kept : Kept half tables res stage) : Kept half more res stage := by
  cases stage with
  | ready rest => exact Passed.mono grows kept
  | running statement pending held rest => exact ⟨kept.1.mono grows, kept.2.mono grows⟩
  | failed => trivial

end Grow

theorem Passed.start (half : Tensor → Half) (tables : Tables Score Half) (res : List (Int × Option (Inferred Tensor Score))) :
    Passed half tables res (statements (record half res)) := by
  have nothing : Statement.insertTags ∉ statements (record half res) ∨ Statement.upsertLinks ∉ statements (record half res) →
      inferredTags res = [] := by
    intro missing
    by_contra tags
    have sent : (record half res).tagNames.isEmpty = false := by
      rw [record_eq, List.isEmpty_map]
      exact List.isEmpty_eq_false_iff.mpr tags
    rw [statements, sent] at missing
    simp at missing
  refine ⟨List.suffix_refl _, fun gone id name score member => ?_, fun gone id name score member => ?_⟩
  · rw [nothing (.inl gone)] at member
    cases member
  · rw [nothing (.inr gone)] at member
    cases member

theorem Working.begin {statement : Statement} {rest : List Statement} (passed : Passed half tables res (statement :: rest)) :
    Working half tables res statement (items collation tables (record half res) statement) [] where
  pendingOf item member id row made := by
    cases statement with
    | insertTags =>
      obtain ⟨name, _, rfl⟩ := List.mem_map.mp member
      obtain ⟨stored, _, rfl⟩ := Option.map_eq_some_iff.mp made
      rfl
    | upsertLinks =>
      obtain ⟨link, there, rfl⟩ := List.mem_map.mp member
      cases made
      exact ⟨rfl, there⟩
    | completeImages =>
      obtain ⟨⟨image, entry⟩, there, rfl⟩ := List.mem_map.mp member
      cases made
      exact .inl ⟨rfl, List.mem_zipIdx_iff_getElem?.mp (List.mem_filter.mp there).1⟩
    | resetImages =>
      obtain ⟨⟨image, entry⟩, there, rfl⟩ := List.mem_map.mp member
      cases made
      exact .inr ⟨rfl, List.mem_zipIdx_iff_getElem?.mp (List.mem_filter.mp there).1⟩
  heldOf row member := absurd member List.not_mem_nil
  naming inserts id name score member storable := by
    subst inserts
    exact .inr (.inr (List.mem_map_of_mem (mem_tagItems.mpr ⟨⟨id, score, member⟩, storable.1⟩)))
  linking links id name score member storable := by
    subst links
    have named := passed.named (not_mem_of_suffix passed.suffix Nat.zero_lt_one) id name score member storable
    obtain ⟨tag, here, rfl⟩ := named
    exact ⟨tag, here, rfl, .inr ⟨⟨tag.id, id, score⟩, List.mem_map_of_mem (mem_linkItems.mpr ⟨tag, here, rfl, member⟩), rfl, rfl⟩⟩

/-- Either an item is the one that was taken out, or it is still there. -/
theorem mem_eraseIdx_or {α : Type} {items : List α} {place : Nat} {taken item : α} (at_ : items[place]? = some taken)
    (member : item ∈ items) : item = taken ∨ item ∈ items.eraseIdx place := by
  obtain ⟨other, found⟩ := List.mem_iff_getElem?.mp member
  by_cases same : other = place
  · rw [same, at_] at found
    exact .inl (Option.some.inj found).symm
  · exact .inr (List.mem_eraseIdx_iff_getElem?.mpr ⟨other, same, found⟩)

/-- A statement goes on to its next item, having settled this one's row. -/
theorem Working.next {statement : Statement} {pending : List (Item Score)} {held later : List (Row Score)} {place id : Nat}
    {item : Item Score} {row : Row Score} (working : Working half tables res statement pending held)
    (at_ : pending[place]? = some item) (fits : item.row id = some row) (longer : ∀ row ∈ held, row ∈ later)
    (only : ∀ row' ∈ later, row' ∈ held ∨ row' = row)
    (settled : (∃ row' ∈ later, row'.key = row.key) ∨ tables.wdTags.any (row.key = .tag ·.name) = true) :
    Working half tables res statement (pending.eraseIdx place) later where
  pendingOf other member := working.pendingOf other (List.mem_of_mem_eraseIdx member)
  heldOf row' member := by
    rcases only row' member with old | rfl
    · exact working.heldOf row' old
    · exact working.pendingOf item (List.mem_of_getElem? at_) id _ fits
  naming inserts image name score member storable := by
    rcases working.naming inserts image name score member storable with there | ⟨tag, here, same⟩ | waiting
    · exact .inl there
    · exact .inr (.inl ⟨tag, longer _ here, same⟩)
    · rcases mem_eraseIdx_or at_ waiting with rfl | still
      · rw [Item.row, storable.assign] at fits
        obtain rfl := Option.some.inj fits
        rcases settled with ⟨row', here, same⟩ | there
        · cases row' with
          | link other => cases same
          | image other entry => cases same
          | tag tag => exact .inr (.inl ⟨tag, here, Key.tag.inj same⟩)
        · obtain ⟨tag, found, same⟩ := List.any_eq_true.mp there
          exact .inl ⟨tag, found, (Key.tag.inj (of_decide_eq_true same)).symm⟩
      · exact .inr (.inr still)
  linking links image name score member storable := by
    obtain ⟨tag, there, named, going⟩ := working.linking links image name score member storable
    refine ⟨tag, there, named, ?_⟩
    rcases going with ⟨link, here, same⟩ | ⟨link, waiting, same⟩
    · exact .inl ⟨link, longer _ here, same⟩
    · rcases mem_eraseIdx_or at_ waiting with rfl | still
      · obtain rfl := Option.some.inj fits
        rcases settled with ⟨row', here, equal⟩ | there
        · cases row' with
          | tag other => cases equal
          | image other entry => cases equal
          | link other =>
            obtain ⟨sameTag, sameImage⟩ := Key.link.inj equal
            exact .inl ⟨other, here, sameTag.trans same.1, sameImage.trans same.2⟩
        · obtain ⟨_, _, wrong⟩ := List.any_eq_true.mp there
          cases of_decide_eq_true wrong
      · exact .inr ⟨link, still, same⟩

/-- All a statement held is in the tables now. -/
theorem Passed.commit {statement : Statement} {held : List (Row Score)} {rest : List Statement}
    (passed : Passed half tables res (statement :: rest)) (working : Working half tables res statement [] held) :
    Passed half (held.foldl (Tables.put statement (record half res)) tables) res rest := by
  have grows : Grows tables (held.foldl (Tables.put statement (record half res)) tables) := puts_grow held tables
  refine ⟨(List.suffix_cons statement rest).trans passed.suffix, ?_, ?_⟩
  · intro gone id name score member storable
    by_cases inserts : statement = .insertTags
    · rcases working.naming inserts id name score member storable with there | ⟨tag, here, same⟩ | waiting
      · exact there.mono grows
      · exact ⟨tag, puts_tag here, same⟩
      · cases waiting
    · have before : Statement.insertTags ∉ statement :: rest := List.not_mem_cons_of_ne_of_not_mem (Ne.symm inserts) gone
      exact (passed.named before id name score member storable).mono grows
  · intro gone id name score member storable
    by_cases links : statement = .upsertLinks
    · obtain ⟨tag, there, named, going⟩ := working.linking links id name score member storable
      rcases going with ⟨row, here, ofTag, ofImage⟩ | ⟨row, waiting, _⟩
      · obtain ⟨link, put, sameTag, sameImage⟩ := @puts_link _ _ statement (record half res) _ tables _ here
        exact ⟨tag, grows.tags tag there, named, link, put, sameTag.trans ofTag, sameImage.trans ofImage⟩
      · cases waiting
    · have before : Statement.upsertLinks ∉ statement :: rest := List.not_mem_cons_of_ne_of_not_mem (Ne.symm links) gone
      exact (passed.linked before id name score member storable).mono grows

/-! ## All of them -/

/-- An image that a write completed, with what was inferred for it in that write. -/
def Completed (half : Tensor → Half) (s : State Tensor Score Half) (id : Int) (stored : Stored Half) : Prop :=
  ∃ session ∈ s.sessions, ∃ tags clip dino, (id, some (tags, clip, dino)) ∈ session.res ∧
    stored = ⟨.completed, some (half clip), some (half dino)⟩ ∧
    ∀ tag score, (tag, score) ∈ tags → Storable tag.name → Tagged s.tables id tag.name

/-- A link that a write made. -/
def FromInference (s : State Tensor Score Half) (link : WdTagImage Score) : Prop :=
  ∃ session ∈ s.sessions, ∃ tag ∈ s.tables.wdTags, tag.id = link.wdTag ∧
    (link.image, tag.name, link.score) ∈ inferredTags session.res

structure Sound (half : Tensor → Half) (s : State Tensor Score Half) : Prop where
  kept : ∀ session ∈ s.sessions, Kept half s.tables session.res session.stage
  completed : ∀ id stored, s.tables.images id = some stored → stored.status = .completed → Completed half s id stored
  links : ∀ link ∈ s.tables.wdTagImages, FromInference s link

theorem Completed.mono {late : State Tensor Score Half} {id : Int} {stored : Stored Half} (completed : Completed half s id stored)
    (grows : Grows s.tables late.tables) (sessions : ∀ session ∈ s.sessions, ∃ same ∈ late.sessions, same.res = session.res) :
    Completed half late id stored := by
  obtain ⟨session, here, tags, clip, dino, found, set, tagged⟩ := completed
  obtain ⟨same, there, equal⟩ := sessions session here
  refine ⟨same, there, tags, clip, dino, equal ▸ found, set, fun tag score member storable => ?_⟩
  exact (tagged tag score member storable).mono grows

theorem FromInference.mono {late : State Tensor Score Half} {link : WdTagImage Score} (inferred : FromInference s link)
    (grows : Grows s.tables late.tables) (sessions : ∀ session ∈ s.sessions, ∃ same ∈ late.sessions, same.res = session.res) :
    FromInference late link := by
  obtain ⟨session, here, tag, found, ofTag, member⟩ := inferred
  obtain ⟨same, there, equal⟩ := sessions session here
  exact ⟨same, there, tag, grows.tags tag found, ofTag, equal ▸ member⟩

section Moves
variable {found : Session Tensor Score} {stage : Stage Score}

theorem Moves.grows (moves : Moves collation half s i found stage tables) : Grows s.tables tables := by
  cases moves with
  | begin | skip | fail => exact .refl _
  | commit before referenced => exact puts_grow _ _
  | take before next front fits unheld new free =>
    split
    next => exact ⟨fun _ => id, (Grows.refl s.tables).links⟩
    next => exact .refl _

theorem Moves.kept (moves : Moves collation half s i found stage tables)
    (kept : Kept half s.tables found.res found.stage) : Kept half tables found.res stage := by
  have grows := moves.grows
  cases moves with
  | begin before =>
    rw [before] at kept
    exact ⟨kept, .begin kept⟩
  | skip before next front fits there =>
    rw [before] at kept
    refine ⟨kept.1, kept.2.next next fits (fun _ => id) (fun _ => .inl) ?_⟩
    refine there.imp (fun own => ?_) id
    obtain ⟨row', held, same⟩ := List.any_eq_true.mp own.2
    exact ⟨row', held, of_decide_eq_true same⟩
  | take before next front fits unheld new free =>
    rw [before] at kept
    refine ⟨kept.1.mono grows, Working.mono grows ?_⟩
    refine kept.2.next next fits (fun _ => List.mem_append_left _) (fun row' member => ?_) (.inl ⟨_, ?_, rfl⟩)
    · exact (List.mem_append.mp member).imp id List.mem_singleton.mp
    · exact List.mem_append_right _ (List.mem_singleton_self _)
  | commit before referenced =>
    rw [before] at kept
    exact kept.1.commit kept.2
  | fail => trivial

/-- Images and links change when a statement commits, and not before. -/
theorem Moves.quiet (moves : Moves collation half s i found stage tables) :
    (tables.images = s.tables.images ∧ tables.wdTagImages = s.tables.wdTagImages) ∨ ∃ statement held rest,
      found.stage = .running statement [] held rest ∧ tables = held.foldl (Tables.put statement (record half found.res)) s.tables := by
  cases moves with
  | begin | skip | fail => exact .inl ⟨rfl, rfl⟩
  | commit before referenced => exact .inr ⟨_, _, _, before, rfl⟩
  | take before next front fits unheld new free =>
    refine .inl ?_
    split
    next => exact ⟨rfl, rfl⟩
    next => exact ⟨rfl, rfl⟩

end Moves

theorem Sound.moved {found : Session Tensor Score} {stage : Stage Score} (sound : Sound half s)
    (here : s.sessions[i]? = some found) (moves : Moves collation half s i found stage tables) :
    Sound half (s.moved i found stage tables) := by
  have grows := moves.grows
  have inside := (List.getElem?_eq_some_iff.mp here).1
  have own : ({ found with stage } : Session Tensor Score) ∈ (s.moved i found stage tables).sessions :=
    List.mem_of_getElem? (List.getElem?_set_self inside)
  have sessions : ∀ session ∈ s.sessions, ∃ same ∈ (s.moved i found stage tables).sessions, same.res = session.res := by
    intro session member
    obtain ⟨j, there⟩ := List.mem_iff_getElem?.mp member
    by_cases same : i = j
    · subst same
      obtain rfl := Option.some.inj (here.symm.trans there)
      exact ⟨_, own, rfl⟩
    · exact ⟨session, List.mem_of_getElem? ((List.getElem?_set_ne same).trans there), rfl⟩
  have keeps := sound.kept found (List.mem_of_getElem? here)
  constructor
  · intro session member
    rcases List.mem_or_eq_of_mem_set member with old | rfl
    · exact (sound.kept session old).mono grows
    · exact moves.kept keeps
  · intro id stored there completed
    rcases moves.quiet with ⟨images, _⟩ | ⟨statement, held, rest, before, rfl⟩
    · rw [State.moved, images] at there
      exact (sound.completed id stored there completed).mono grows sessions
    · rcases puts_image there with old | ⟨entry, previous, member, set⟩
      · exact (sound.completed id stored old completed).mono grows sessions
      · rw [before] at keeps
        rcases keeps.2.heldOf _ member with ⟨completes, at_⟩ | ⟨resets, _⟩
        · obtain ⟨⟨tags, clip, dino⟩, found', clips, dinos⟩ := completed_entry at_
          refine ⟨_, own, tags, clip, dino, found', ?_, fun tag score inside storable => ?_⟩
          · rw [set, completes, Tables.store, clips, dinos]
          · have linked := keeps.1.linked (not_mem_of_suffix keeps.1.suffix (by rw [completes]; decide))
            exact (linked id tag.name score (mem_inferredTags.mpr ⟨_, found', tag, inside, rfl⟩) storable).mono grows
        · rw [set, resets] at completed
          cases completed
  · intro link there
    rcases moves.quiet with ⟨_, links⟩ | ⟨statement, held, rest, before, rfl⟩
    · rw [State.moved, links] at there
      exact (sound.links link there).mono grows sessions
    · rcases mem_puts_links there with old | new
      · exact (sound.links link old).mono grows sessions
      · rw [before] at keeps
        obtain ⟨_, listed⟩ := keeps.2.heldOf _ new
        obtain ⟨tag, known, ofTag, inferred⟩ := mem_linkItems.mp listed
        exact ⟨_, own, tag, grows.tags tag known, ofTag, inferred⟩

/-- Nothing but the images changes, and none becomes completed. -/
theorem Sound.images {images : Int → Option (Stored Half)} (sound : Sound half s)
    (same : ∀ id stored, images id = some stored → stored.status = .completed → s.tables.images id = some stored) :
    Sound half { s with tables := { s.tables with images } } := by
  have grows : Grows s.tables { s.tables with images } := ⟨fun _ => id, (Grows.refl s.tables).links⟩
  have sessions : ∀ session ∈ s.sessions, ∃ same ∈ s.sessions, same.res = session.res := fun session member => ⟨session, member, rfl⟩
  constructor
  · exact fun session member => (sound.kept session member).mono grows
  · intro id stored there completed
    exact (sound.completed id stored (same id stored there completed) completed).mono grows sessions
  · exact fun link member => (sound.links link member).mono grows sessions

theorem Sound.step (sound : Sound half s) (input : Input Tensor Score) : Sound half (step collation half s input) := by
  cases input with
  | start res =>
    have sessions : ∀ session ∈ s.sessions, ∃ same ∈ s.sessions ++ [⟨res, .ready (statements (record half res))⟩],
        same.res = session.res := fun session member => ⟨session, List.mem_append_left _ member, rfl⟩
    constructor
    · intro session member
      rcases List.mem_append.mp member with old | new
      · exact sound.kept session old
      · rw [List.mem_singleton.mp new]
        exact Passed.start half s.tables res
    · exact fun id stored here completed => (sound.completed id stored here completed).mono (.refl _) sessions
    · exact fun link member => (sound.links link member).mono (.refl _) sessions
  | advance i pick =>
    rw [Record.step]
    rcases advance_cases collation half s i pick with idle | ⟨found, stage, tables, here, made, moves⟩
    · rw [idle]
      exact sound
    · rw [made]
      exact sound.moved here moves
  | fail i =>
    rw [Record.step]
    rcases fail_cases collation half s i with idle | ⟨found, stage, tables, here, made, moves⟩
    · rw [idle]
      exact sound
    · rw [made]
      exact sound.moved here moves
  | claim ids =>
    apply sound.images
    intro id stored there completed
    obtain ⟨before, old, rfl⟩ := Option.map_eq_some_iff.mp there
    split at completed
    next => cases completed
    next unclaimed => rw [old, if_neg unclaimed]
  | arrive id =>
    apply sound.images
    intro other stored there completed
    rw [Function.update_apply] at there
    split at there
    next same =>
      rw [same]
      cases old : s.tables.images id with
      | none =>
        rw [old] at there
        obtain rfl := Option.some.inj there
        cases completed
      | some before =>
        rw [old] at there
        exact there
    next => exact there

/-- The tables as the migrations leave them. -/
def Tables.empty : Tables Score Half := ⟨[], [], fun _ => none, 1⟩

theorem sound_of_run {guard : Guard (State Tensor Score Half) (Input Tensor Score) Unit}
    {past : List (Event (State Tensor Score Half) (Input Tensor Score) Unit)}
    (run : (machine collation half Tables.empty).Run guard ⟨Tables.empty, []⟩ past s) : Sound half s := by
  apply run.invariant fun _ s => Sound half s
  · constructor
    · exact fun _ member => absurd member List.not_mem_nil
    · intro id stored there
      cases there
    · exact fun _ member => absurd member List.not_mem_nil
  · exact fun _ _ sound => sound.step _

/-- In every state reached, a completed image carries the embeddings of one write that
inferred it, and a link to each of the tags inferred there that has a row of its own; and
there is no link that no write inferred. -/
theorem completed_is_tagged {past : List (Event (State Tensor Score Half) (Input Tensor Score) Unit)}
    (run : (machine collation half Tables.empty).Run (fun _ _ _ => True) ⟨Tables.empty, []⟩ past s) :
    (∀ id stored, s.tables.images id = some stored → stored.status = .completed → Completed half s id stored) ∧
      ∀ link ∈ s.tables.wdTagImages, FromInference s link := by
  have sound := sound_of_run run
  exact ⟨sound.completed, sound.links⟩

section Example
open Machine

def codePoints : Collation where
  le a b := decide (a ≤ b)
  trans a b c first second := decide_eq_true (le_trans (of_decide_eq_true first) (of_decide_eq_true second))
  total a b := by
    rw [Bool.or_eq_true, decide_eq_true_eq, decide_eq_true_eq]
    exact le_total a b
  antisymm a b first second := le_antisymm (of_decide_eq_true first) (of_decide_eq_true second)

def tagged (id : Int) (score : Nat) : Int × Option (Inferred Nat Nat) :=
  (id, some ([(⟨.general, "cat"⟩, score)], 10, 20))

/-- Two writes that bring the same new tag; the second has to wait for the first, whose
reset of another image then fails. -/
def shared : List (Input Nat Nat) := [
  .arrive 1, .arrive 2, .arrive 3, .claim [1, 2, 3], .start [tagged 1 7, (3, none)], .start [tagged 2 9],
  .advance 0 0, .advance 0 0, .advance 1 0, .advance 1 0, .advance 0 0, .advance 1 0, .advance 1 0,
  .advance 0 0, .advance 0 0, .advance 0 0, .advance 0 0, .advance 0 0, .advance 0 0, .fail 0]

theorem completed_is_tagged_shared :
    let s := ((machine codePoints (· + 100) Tables.empty).play ([], ⟨Tables.empty, []⟩) shared).2
    s.tables.wdTags = [⟨1, "cat"⟩] ∧ Completed (· + 100) s 1 ⟨.completed, some 110, some 120⟩ := by
  have run : (machine codePoints (· + 100) Tables.empty).Run (fun _ _ _ => True) ⟨Tables.empty, []⟩ _ _ :=
    Run.start.play shared (permitted_always (fun _ _ _ => trivial) _ _)
  refine ⟨by decide +kernel, (completed_is_tagged run).1 1 _ ?_ rfl⟩
  rfl

end Example

end LetsEmbed.Record
