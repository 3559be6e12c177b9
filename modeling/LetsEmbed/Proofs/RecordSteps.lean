import Mathlib.Data.List.Basic
import LetsEmbed.Record

/-! What a write can do next, and what it leaves of the tables: rows come, and none goes. -/

namespace LetsEmbed.Record
open Systems Pipeline

variable {Tensor Score Half : Type} {collation : Collation} {half : Tensor → Half} {s : State Tensor Score Half}
  {i pick : Nat}

/-! ## One step of one write -/

/-- All that a session which takes a step can become, and what it makes of the tables. -/
inductive Moves (collation : Collation) (half : Tensor → Half) (s : State Tensor Score Half) (i : Nat)
    (found : Session Tensor Score) : Stage Score → Tables Score Half → Prop where
  | begin {statement rest} (before : found.stage = .ready (statement :: rest)) :
      Moves collation half s i found
        (.running statement (items collation s.tables (record half found.res) statement) [] rest) s.tables
  | skip {statement pending held rest place item row} (before : found.stage = .running statement pending held rest)
      (next : pending[place]? = some item) (front : statement = .insertTags → place = 0)
      (fits : item.row s.tables.nextTag = some row)
      (there : statement ≠ .upsertLinks ∧ held.any (·.key = row.key) = true ∨
        s.tables.wdTags.any (row.key = .tag ·.name) = true) :
      Moves collation half s i found (.running statement (pending.eraseIdx place) held rest) s.tables
  | take {statement pending held rest place item row} (before : found.stage = .running statement pending held rest)
      (next : pending[place]? = some item) (front : statement = .insertTags → place = 0)
      (fits : item.row s.tables.nextTag = some row) (unheld : ¬ held.any (·.key = row.key) = true)
      (new : ¬ s.tables.wdTags.any (row.key = .tag ·.name) = true) (free : ¬ s.locked i row.key = true) :
      Moves collation half s i found (.running statement (pending.eraseIdx place) (held ++ [row]) rest)
        (if statement = .insertTags then { s.tables with nextTag := s.tables.nextTag + 1 } else s.tables)
  | commit {statement held rest} (before : found.stage = .running statement [] held rest)
      (referenced : held.all (Row.referenced s.tables) = true) :
      Moves collation half s i found (.ready rest)
        (held.foldl (Tables.put statement (record half found.res)) s.tables)
  | fail (before : found.stage.isOver = false) : Moves collation half s i found .failed s.tables

/-- A state with one session moved on. -/
def State.moved (s : State Tensor Score Half) (i : Nat) (found : Session Tensor Score) (stage : Stage Score)
    (tables : Tables Score Half) : State Tensor Score Half :=
  ⟨tables, s.sessions.set i { found with stage }⟩

theorem take_cases {found : Session Tensor Score} {statement : Statement} {pending : List (Item Score)}
    {held : List (Row Score)} {rest : List Statement} {place : Nat} {item : Item Score}
    (before : found.stage = .running statement pending held rest) (next : pending[place]? = some item)
    (front : statement = .insertTags → place = 0) :
    (∃ row, item.row s.tables.nextTag = some row ∧ s.locked i row.key = true ∧
        s.take i found statement (pending.eraseIdx place) held rest (item.row s.tables.nextTag) = s) ∨
      ∃ stage tables, s.take i found statement (pending.eraseIdx place) held rest (item.row s.tables.nextTag) =
        s.moved i found stage tables ∧ Moves collation half s i found stage tables := by
  have running : found.stage.isOver = false := by
    rw [before]
    rfl
  cases fits : item.row s.tables.nextTag with
  | none => exact .inr ⟨_, _, rfl, .fail running⟩
  | some row =>
    dsimp only [State.take]
    split
    next owned =>
      refine .inr ?_
      split
      next => exact ⟨_, _, rfl, .fail running⟩
      next other => exact ⟨_, _, rfl, .skip before next front fits (.inl ⟨other, owned⟩)⟩
    next unheld =>
      split
      next there => exact .inr ⟨_, _, rfl, .skip before next front fits (.inr there)⟩
      next new =>
        split
        next taken => exact .inl ⟨row, rfl, taken, rfl⟩
        next free => exact .inr ⟨_, _, rfl, .take before next front fits unheld new free⟩

theorem advance_cases (collation : Collation) (half : Tensor → Half) (s : State Tensor Score Half) (i pick : Nat) :
    s.advance collation half i pick = s ∨ ∃ found stage tables, s.sessions[i]? = some found ∧
      s.advance collation half i pick = s.moved i found stage tables ∧ Moves collation half s i found stage tables := by
  rw [State.advance]
  cases here : s.sessions[i]? with
  | none => exact .inl rfl
  | some found =>
    dsimp only
    split
    next statement rest before => exact .inr ⟨found, _, _, rfl, rfl, .begin before⟩
    next statement held rest before =>
      refine .inr ⟨found, ?_⟩
      rw [State.commit]
      split
      next referenced => exact ⟨_, _, rfl, rfl, .commit before referenced⟩
      next => exact ⟨_, _, rfl, rfl, .fail (by rw [before]; rfl)⟩
    next statement pending held rest _ before =>
      split
      next => exact .inl rfl
      next item next =>
        rcases take_cases (s := s) (i := i) before next fun inserts => if_pos inserts with ⟨_, _, _, idle⟩ | ⟨stage, tables, made, moves⟩
        · exact .inl idle
        · exact .inr ⟨found, stage, tables, rfl, made, moves⟩
    next => exact .inl rfl

theorem fail_cases (collation : Collation) (half : Tensor → Half) (s : State Tensor Score Half) (i : Nat) :
    s.fail i = s ∨ ∃ found stage tables, s.sessions[i]? = some found ∧
      s.fail i = s.moved i found stage tables ∧ Moves collation half s i found stage tables := by
  rw [State.fail]
  cases here : s.sessions[i]? with
  | none => exact .inl rfl
  | some found =>
    dsimp only
    split
    next => exact .inl rfl
    next going => exact .inr ⟨found, _, _, rfl, rfl, .fail (Bool.eq_false_iff.mpr going)⟩

/-! ## What a write sends -/

/-- The images with results, and these. -/
def made (res : List (Int × Option (Inferred Tensor Score))) : List (Int × Inferred Tensor Score) :=
  res.filterMap fun (id, outcome) => outcome.map (id, ·)

/-- The tags inferred: an image, a name and a score each. -/
def inferredTags (res : List (Int × Option (Inferred Tensor Score))) : List (Int × String × Score) :=
  (made res).flatMap fun entry => entry.2.1.map fun (tag, score) => (entry.1, tag.name, score)

theorem push_res (res : List (Int × Option (Inferred Tensor Score))) (write : Write Score Half) :
    res.foldl (Write.push half) write =
      { wdIds := write.wdIds ++ (inferredTags res).map (·.1)
        tagNames := write.tagNames ++ (inferredTags res).map (·.2.1)
        scores := write.scores ++ (inferredTags res).map (·.2.2)
        completedIds := write.completedIds ++ (made res).map (·.1)
        clipEmbeddings := write.clipEmbeddings ++ (made res).map (half ·.2.2.1)
        dinoEmbeddings := write.dinoEmbeddings ++ (made res).map (half ·.2.2.2)
        failedIds := write.failedIds ++ (res.filter (·.2.isNone)).map (·.1) } := by
  induction res generalizing write with
  | nil => simp [made, inferredTags]
  | cons entry rest ih =>
    rw [List.foldl_cons, ih]
    obtain ⟨id, outcome⟩ := entry
    cases outcome with
    | none => simp [Write.push, made, inferredTags]
    | some outcome => simp [Write.push, made, inferredTags, List.map_flatMap, Function.comp_def]

theorem record_eq (half : Tensor → Half) (res : List (Int × Option (Inferred Tensor Score))) :
    record half res =
      { wdIds := (inferredTags res).map (·.1), tagNames := (inferredTags res).map (·.2.1),
        scores := (inferredTags res).map (·.2.2), completedIds := (made res).map (·.1),
        clipEmbeddings := (made res).map (half ·.2.2.1), dinoEmbeddings := (made res).map (half ·.2.2.2),
        failedIds := (res.filter (·.2.isNone)).map (·.1) } := by
  rw [record, push_res]
  rfl

variable {res : List (Int × Option (Inferred Tensor Score))}

theorem mem_made {id : Int} {outcome : Inferred Tensor Score} : (id, outcome) ∈ made res ↔ (id, some outcome) ∈ res := by
  rw [made, List.mem_filterMap]
  constructor
  · rintro ⟨⟨found, result⟩, member, same⟩
    obtain ⟨value, rfl, same⟩ := Option.map_eq_some_iff.mp same
    cases same
    exact member
  · intro member
    exact ⟨_, member, rfl⟩

theorem mem_inferredTags {id : Int} {name : String} {score : Score} :
    (id, name, score) ∈ inferredTags res ↔
      ∃ outcome, (id, some outcome) ∈ res ∧ ∃ tag, (tag, score) ∈ outcome.1 ∧ tag.name = name := by
  rw [inferredTags, List.mem_flatMap]
  constructor
  · rintro ⟨⟨found, outcome⟩, member, inside⟩
    obtain ⟨⟨tag, value⟩, there, same⟩ := List.mem_map.mp inside
    cases same
    exact ⟨outcome, mem_made.mp member, tag, there, rfl⟩
  · rintro ⟨outcome, member, tag, there, rfl⟩
    exact ⟨(id, outcome), mem_made.mpr member, List.mem_map.mpr ⟨(tag, score), there, rfl⟩⟩

theorem mem_linkItems {tables : Tables Score Half} {row : WdTagImage Score} :
    row ∈ linkItems tables (record half res) ↔
      ∃ tag ∈ tables.wdTags, tag.id = row.wdTag ∧ (row.image, tag.name, row.score) ∈ inferredTags res := by
  have entries : (record half res).wdIds.zip ((record half res).tagNames.zip (record half res).scores) = inferredTags res := by
    rw [record_eq, List.zip_map', List.zip_map']
    exact List.map_id _
  rw [linkItems, entries, List.mem_flatMap]
  constructor
  · rintro ⟨⟨id, name, score⟩, member, inside⟩
    obtain ⟨tag, found, rfl⟩ := List.mem_map.mp inside
    obtain ⟨there, named⟩ := List.mem_filter.mp found
    rw [decide_eq_true_eq] at named
    subst named
    exact ⟨tag, there, rfl, member⟩
  · rintro ⟨tag, there, same, member⟩
    refine ⟨_, member, List.mem_map.mpr ⟨tag, List.mem_filter.mpr ⟨there, decide_eq_true rfl⟩, ?_⟩⟩
    rw [same]

theorem mem_tagItems {name : String} :
    name ∈ tagItems collation (record half res) ↔ (∃ id score, (id, name, score) ∈ inferredTags res) ∧ Db.blank name = false := by
  rw [tagItems, List.mem_insertionSort, List.mem_dedup, List.mem_filter, record_eq, Bool.not_eq_true', List.mem_map]
  refine and_congr_left fun _ => ⟨?_, ?_⟩
  · rintro ⟨⟨id, found, score⟩, member, rfl⟩
    exact ⟨id, score, member⟩
  · rintro ⟨id, score, member⟩
    exact ⟨_, member, rfl⟩

theorem completed_entry {id : Int} {entry : Nat} (found : (record half res).completedIds[entry]? = some id) :
    ∃ outcome, (id, some outcome) ∈ res ∧ (record half res).clipEmbeddings[entry]? = some (half outcome.2.1) ∧
      (record half res).dinoEmbeddings[entry]? = some (half outcome.2.2) := by
  rw [record_eq] at found ⊢
  dsimp only at found ⊢
  rw [List.getElem?_map] at found ⊢
  rw [List.getElem?_map]
  obtain ⟨⟨same, outcome⟩, there, rfl⟩ := Option.map_eq_some_iff.mp found
  rw [there]
  exact ⟨outcome, mem_made.mp (List.mem_of_getElem? there), rfl, rfl⟩

/-! ## The order of its statements -/

def Statement.index : Statement → Nat
  | .insertTags => 0
  | .upsertLinks => 1
  | .completeImages => 2
  | .resetImages => 3

theorem statements_ascending (write : Write Score Half) : (statements write).Pairwise fun a b => a.index < b.index := by
  rw [statements]
  split <;> split <;> split <;> decide

theorem not_mem_of_suffix {write : Write Score Half} {statement earlier : Statement} {rest : List Statement}
    (suffix : statement :: rest <:+ statements write) (before : earlier.index < statement.index) :
    earlier ∉ statement :: rest := by
  obtain ⟨later, _⟩ := List.pairwise_cons.mp ((statements_ascending write).sublist suffix.sublist)
  intro member
  rcases List.mem_cons.mp member with rfl | member
  · exact lt_irrefl _ before
  · exact lt_asymm before (later earlier member)

/-! ## What tables keep -/

/-- Tags and links stay, whatever their scores become. -/
structure Grows (before after : Tables Score Half) : Prop where
  tags : ∀ tag ∈ before.wdTags, tag ∈ after.wdTags
  links : ∀ link ∈ before.wdTagImages, ∃ kept ∈ after.wdTagImages, kept.wdTag = link.wdTag ∧ kept.image = link.image

namespace Grows
variable {before middle after tables : Tables Score Half}

theorem refl (tables : Tables Score Half) : Grows tables tables := ⟨fun _ => id, fun link member => ⟨link, member, rfl, rfl⟩⟩

theorem trans (first : Grows before middle) (second : Grows middle after) : Grows before after := by
  refine ⟨fun tag member => second.tags tag (first.tags tag member), fun link member => ?_⟩
  obtain ⟨kept, here, tag, image⟩ := first.links link member
  obtain ⟨last, there, tag', image'⟩ := second.links kept here
  exact ⟨last, there, tag'.trans tag, image'.trans image⟩

end Grows

theorem mem_upsert {links : List (WdTagImage Score)} {row link : WdTagImage Score} (member : link ∈ Tables.upsert links row) :
    link = row ∨ link ∈ links := by
  rw [Tables.upsert] at member
  split at member
  next =>
    obtain ⟨old, there, rfl⟩ := List.mem_map.mp member
    split
    next => exact .inl rfl
    next => exact .inr there
  next => exact (List.mem_append.mp member).symm.imp List.mem_singleton.mp id

theorem upsert_has (links : List (WdTagImage Score)) (row : WdTagImage Score) :
    ∃ link ∈ Tables.upsert links row, link.wdTag = row.wdTag ∧ link.image = row.image := by
  rw [Tables.upsert]
  split
  next there =>
    obtain ⟨link, member, same⟩ := List.any_eq_true.mp there
    rw [decide_eq_true_eq] at same
    exact ⟨row, List.mem_map.mpr ⟨link, member, if_pos same⟩, rfl, rfl⟩
  next => exact ⟨row, List.mem_append_right _ (List.mem_singleton_self row), rfl, rfl⟩

theorem upsert_keeps {links : List (WdTagImage Score)} {link : WdTagImage Score} (row : WdTagImage Score) (member : link ∈ links) :
    ∃ kept ∈ Tables.upsert links row, kept.wdTag = link.wdTag ∧ kept.image = link.image := by
  rw [Tables.upsert]
  split
  next =>
    refine ⟨_, List.mem_map_of_mem member, ?_⟩
    split
    next same => exact ⟨same.1.symm, same.2.symm⟩
    next => exact ⟨rfl, rfl⟩
  next => exact ⟨link, List.mem_append_left _ member, rfl, rfl⟩

section Put
variable {statement : Statement} {write : Write Score Half}

theorem put_grows (row : Row Score) (tables : Tables Score Half) : Grows tables (Tables.put statement write tables row) := by
  cases row with
  | tag row => exact ⟨fun _ => List.mem_append_left _, (Grows.refl tables).links⟩
  | link row => exact ⟨fun _ => id, fun link member => upsert_keeps row member⟩
  | image image entry => exact ⟨fun _ => id, (Grows.refl tables).links⟩

theorem puts_grow (held : List (Row Score)) (tables : Tables Score Half) :
    Grows tables (held.foldl (Tables.put statement write) tables) := by
  induction held generalizing tables with
  | nil => exact .refl tables
  | cons row rest ih => exact (put_grows row tables).trans (ih _)

theorem puts_tag {held : List (Row Score)} {tables : Tables Score Half} {row : WdTag} (member : .tag row ∈ held) :
    row ∈ (held.foldl (Tables.put statement write) tables).wdTags := by
  obtain ⟨early, late, rfl⟩ := List.append_of_mem member
  rw [List.foldl_append, List.foldl_cons]
  exact (puts_grow late _).tags row (List.mem_append_right _ (List.mem_singleton_self row))

theorem puts_link {held : List (Row Score)} {tables : Tables Score Half} {row : WdTagImage Score} (member : .link row ∈ held) :
    ∃ link ∈ (held.foldl (Tables.put statement write) tables).wdTagImages, link.wdTag = row.wdTag ∧ link.image = row.image := by
  obtain ⟨early, late, rfl⟩ := List.append_of_mem member
  rw [List.foldl_append, List.foldl_cons]
  obtain ⟨link, here, tag, image⟩ := upsert_has (early.foldl (Tables.put statement write) tables).wdTagImages row
  obtain ⟨kept, there, tag', image'⟩ := (puts_grow late (Tables.put statement write _ (.link row))).links link here
  exact ⟨kept, there, tag'.trans tag, image'.trans image⟩

/-- A link in the tables was there or was put there. -/
theorem mem_puts_links {held : List (Row Score)} {tables : Tables Score Half} {link : WdTagImage Score}
    (member : link ∈ (held.foldl (Tables.put statement write) tables).wdTagImages) :
    link ∈ tables.wdTagImages ∨ .link link ∈ held := by
  induction held generalizing tables with
  | nil => exact .inl member
  | cons row rest ih =>
    rcases ih member with here | later
    · cases row with
      | tag row => exact .inl here
      | image id entry => exact .inl here
      | link row => exact (mem_upsert here).symm.imp id fun same => by rw [same]; exact List.mem_cons_self
    · exact .inr (List.mem_cons_of_mem _ later)

theorem mem_puts_tags {held : List (Row Score)} {tables : Tables Score Half} {tag : WdTag}
    (member : tag ∈ (held.foldl (Tables.put statement write) tables).wdTags) : tag ∈ tables.wdTags ∨ .tag tag ∈ held := by
  induction held generalizing tables with
  | nil => exact .inl member
  | cons row rest ih =>
    rcases ih member with here | later
    · cases row with
      | link row => exact .inl here
      | image id entry => exact .inl here
      | tag row => exact (List.mem_append.mp here).imp id fun same => by rw [List.mem_singleton.mp same]; exact List.mem_cons_self
    · exact .inr (List.mem_cons_of_mem _ later)

/-- What becomes of an image: it stays, or one of the held entries is stored. -/
theorem puts_image {held : List (Row Score)} {tables : Tables Score Half} {id : Int} {stored : Stored Half}
    (after : (held.foldl (Tables.put statement write) tables).images id = some stored) :
    tables.images id = some stored ∨ ∃ entry before, .image id entry ∈ held ∧ stored = Tables.store statement write entry before := by
  induction held generalizing tables with
  | nil => exact .inl after
  | cons row rest ih =>
    rcases ih after with here | ⟨entry, before, later, set⟩
    · cases row with
      | tag row => exact .inl here
      | link row => exact .inl here
      | image other entry =>
        rw [Tables.put] at here
        dsimp only at here
        rw [Function.update_apply] at here
        split at here
        next same =>
          obtain ⟨before, _, set⟩ := Option.map_eq_some_iff.mp here
          rw [same]
          exact .inr ⟨entry, before, List.mem_cons_self, set.symm⟩
        next => exact .inl here
    · exact .inr ⟨entry, before, List.mem_cons_of_mem _ later, set⟩

end Put

end LetsEmbed.Record
