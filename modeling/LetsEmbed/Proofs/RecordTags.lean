import Mathlib.Data.List.Perm.Basic
import LetsEmbed.Proofs.RecordCompletion

/-! Tags have one row for each name and one for each id, whatever writes do at the same
time. A name is taken by the lock on its row, an id by the counter. -/

namespace LetsEmbed.Record
open Systems Pipeline

variable {Tensor Score Half : Type} {collation : Collation} {half : Tensor → Half} {s : State Tensor Score Half} {i : Nat}

def Row.wdTag : Row Score → Option WdTag
  | .tag row => some row
  | _ => none

def Stage.wdTags (stage : Stage Score) : List WdTag := stage.held.filterMap Row.wdTag

/-- The rows that are there, and those that statements are about to add. -/
def State.wdTags (s : State Tensor Score Half) : List WdTag :=
  s.tables.wdTags ++ s.sessions.flatMap fun session => session.stage.wdTags

theorem locked_iff {key : Key} : s.locked i key = true ↔
    ∃ j other, i ≠ j ∧ s.sessions[j]? = some other ∧ ∃ row ∈ other.stage.held, row.key = key := by
  rw [State.locked, List.any_eq_true]
  constructor
  · rintro ⟨j, _, found⟩
    rw [Bool.and_eq_true, decide_eq_true_eq, Option.any_eq_true] at found
    obtain ⟨different, other, there, holds⟩ := found
    obtain ⟨row, member, same⟩ := List.any_eq_true.mp holds
    exact ⟨j, other, different.symm, there, row, member, of_decide_eq_true same⟩
  · rintro ⟨j, other, different, there, row, member, same⟩
    refine ⟨j, List.mem_range.mpr (List.getElem?_eq_some_iff.mp there).1, ?_⟩
    rw [Bool.and_eq_true, decide_eq_true_eq, Option.any_eq_true]
    exact ⟨different.symm, other, there, List.any_eq_true.mpr ⟨row, member, decide_eq_true same⟩⟩

def Apart (a b : WdTag) : Prop := a.name ≠ b.name ∧ a.id ≠ b.id

structure Numbered (s : State Tensor Score Half) : Prop where
  apart : s.wdTags.Pairwise Apart
  below : ∀ tag ∈ s.wdTags, tag.id < s.tables.nextTag

theorem apart_symm {a b : WdTag} (apart : Apart a b) : Apart b a := ⟨apart.1.symm, apart.2.symm⟩

theorem pairwise_perm {tags more : List WdTag} (same : tags.Perm more) : tags.Pairwise Apart ↔ more.Pairwise Apart :=
  same.pairwise_iff apart_symm

/-- What the others hold. -/
def State.others (s : State Tensor Score Half) (i : Nat) : List WdTag :=
  (s.sessions.eraseIdx i).flatMap fun session => session.stage.wdTags

section Moves
variable {found : Session Tensor Score} {stage : Stage Score} {tables : Tables Score Half}

theorem wdTags_perm (here : s.sessions[i]? = some found) :
    s.wdTags.Perm (s.tables.wdTags ++ (found.stage.wdTags ++ s.others i)) := by
  obtain ⟨inside, rfl⟩ := List.getElem?_eq_some_iff.mp here
  apply List.Perm.append_left
  exact ((List.getElem_cons_eraseIdx_perm inside).flatMap_right _).symm

theorem wdTags_moved (here : s.sessions[i]? = some found) :
    (s.moved i found stage tables).wdTags.Perm (tables.wdTags ++ (stage.wdTags ++ s.others i)) := by
  obtain ⟨inside, rfl⟩ := List.getElem?_eq_some_iff.mp here
  apply List.Perm.append_left
  exact (List.set_perm_cons_eraseIdx inside _).flatMap_right _

theorem puts_tags {statement : Statement} {write : Write Score Half} (held : List (Row Score)) (tables : Tables Score Half) :
    (held.foldl (Tables.put statement write) tables).wdTags = tables.wdTags ++ held.filterMap Row.wdTag ∧
      (held.foldl (Tables.put statement write) tables).nextTag = tables.nextTag := by
  induction held generalizing tables with
  | nil => exact ⟨(List.append_nil _).symm, rfl⟩
  | cons row rest ih =>
    rw [List.foldl_cons, (ih _).1, (ih _).2]
    cases row with
    | tag row => simp [Tables.put, Row.wdTag]
    | link row => exact ⟨rfl, rfl⟩
    | image id entry => exact ⟨rfl, rfl⟩

theorem wdTag_key {row : Row Score} {tag : WdTag} (named : row.wdTag = some tag) : row.key = .tag tag.name := by
  cases row with
  | tag row =>
    obtain rfl := Option.some.inj named
    rfl
  | link row => cases named
  | image id entry => cases named

theorem id_of_row {item : Item Score} {row : Row Score} {tag : WdTag} {id : Nat} (fits : item.row id = some row)
    (named : row.wdTag = some tag) : tag.id = id := by
  cases item with
  | tag name =>
    obtain ⟨stored, _, rfl⟩ := Option.map_eq_some_iff.mp fits
    obtain rfl := Option.some.inj named
    rfl
  | link link =>
    obtain rfl := Option.some.inj fits
    cases named
  | image image entry =>
    obtain rfl := Option.some.inj fits
    cases named

/-- The name of a row that may be taken is in nobody's hands. -/
theorem new_name {row : Row Score} {tag : WdTag} (here : s.sessions[i]? = some found) (named : row.wdTag = some tag)
    (unheld : ¬ found.stage.held.any (·.key = row.key) = true) (new : ¬ s.tables.wdTags.any (row.key = .tag ·.name) = true)
    (free : ¬ s.locked i row.key = true) : ∀ other ∈ s.wdTags, other.name ≠ tag.name := by
  intro other member same
  have key : row.key = .tag other.name := by rw [wdTag_key named, same]
  rw [(wdTags_perm here).mem_iff] at member
  rcases List.mem_append.mp member with stored | member
  · exact new (List.any_eq_true.mpr ⟨other, stored, decide_eq_true key⟩)
  · rcases List.mem_append.mp member with own | others
    · obtain ⟨held, inside, same⟩ := List.mem_filterMap.mp own
      exact unheld (List.any_eq_true.mpr ⟨held, inside, decide_eq_true ((wdTag_key same).trans key.symm)⟩)
    · obtain ⟨session, erased, holds⟩ := List.mem_flatMap.mp others
      obtain ⟨j, different, there⟩ := List.mem_eraseIdx_iff_getElem?.mp erased
      obtain ⟨held, inside, same⟩ := List.mem_filterMap.mp holds
      exact free (locked_iff.mpr ⟨j, session, different.symm, there, held, inside, (wdTag_key same).trans key.symm⟩)

/-- A statement only takes tags if it inserts tags. -/
theorem Kept.inserts {res : List (Int × Option (Inferred Tensor Score))} {statement : Statement} {pending : List (Item Score)}
    {held : List (Row Score)} {rest : List Statement} {place id : Nat} {item : Item Score} {row : Row Score} {tag : WdTag}
    (kept : Kept half tables res (.running statement pending held rest)) (next : pending[place]? = some item)
    (fits : item.row id = some row) (named : row.wdTag = some tag) : statement = .insertTags := by
  have known := kept.2.pendingOf item (List.mem_of_getElem? next) id row fits
  cases row with
  | tag row => exact known
  | link row => cases named
  | image id entry => cases named

theorem Numbered.moved (numbered : Numbered s) (sound : Sound half s) (here : s.sessions[i]? = some found)
    (moves : Moves collation half s i found stage tables) : Numbered (s.moved i found stage tables) := by
  have before := wdTags_perm here
  have apart := (pairwise_perm before).mp numbered.apart
  have below (tag : WdTag) (member : tag ∈ s.tables.wdTags ++ (found.stage.wdTags ++ s.others i)) : tag.id < s.tables.nextTag :=
    numbered.below tag (before.mem_iff.mpr member)
  have kept := sound.kept found (List.mem_of_getElem? here)
  -- what the tables and the session have afterwards are the rows from before, fewer, or one more
  have still {stage : Stage Score} {tables : Tables Score Half} {tags : List WdTag}
      (rows : (tables.wdTags ++ (stage.wdTags ++ s.others i)).Perm tags)
      (fewer : tags.Sublist (s.tables.wdTags ++ (found.stage.wdTags ++ s.others i))) (later : s.tables.nextTag ≤ tables.nextTag) :
      Numbered (s.moved i found stage tables) := by
    have after := (@wdTags_moved _ _ _ _ _ _ stage tables here).trans rows
    refine ⟨(pairwise_perm after).mpr (apart.sublist fewer), fun tag member => ?_⟩
    exact Nat.lt_of_lt_of_le (below tag (fewer.subset (after.mem_iff.mp member))) later
  cases moves with
  | begin was =>
    have same : found.stage.wdTags = [] := by rw [Stage.wdTags, was]; rfl
    apply still (.refl _) _ (Nat.le_refl _)
    rw [same]
    exact .refl _
  | @skip statement pending held rest place item row was next front fits there =>
    have same : found.stage.wdTags = held.filterMap Row.wdTag := by rw [Stage.wdTags, was]; rfl
    apply still (.refl _) _ (Nat.le_refl _)
    rw [same]
    exact .refl _
  | fail unfinished =>
    apply still (.refl _) _ (Nat.le_refl _)
    exact (List.Sublist.refl _).append (List.sublist_append_right _ _)
  | @commit statement held rest was referenced =>
    have same : found.stage.wdTags = held.filterMap Row.wdTag := by rw [Stage.wdTags, was]; rfl
    obtain ⟨stored, counter⟩ := @puts_tags _ _ statement (record half found.res) held s.tables
    apply still (.refl _) _ (Nat.le_of_eq counter.symm)
    rw [stored, same, List.append_assoc]
    exact .refl _
  | @take statement pending held rest place item row was next front fits unheld new free =>
    have same : found.stage.wdTags = held.filterMap Row.wdTag := by rw [Stage.wdTags, was]; rfl
    have more : Stage.wdTags (.running statement (pending.eraseIdx place) (held ++ [row]) rest) =
        found.stage.wdTags ++ row.wdTag.toList := by
      rw [same, Stage.wdTags, Stage.held, List.filterMap_append]
      cases named : row.wdTag with
      | none => rw [List.filterMap_cons_none named]; rfl
      | some tag => rw [List.filterMap_cons_some named]; rfl
    cases named : row.wdTag with
    | none =>
      rw [named, Option.toList_none, List.append_nil] at more
      split
      · apply still (.refl _) _ (Nat.le_succ _)
        rw [more]
      · apply still (.refl _) _ (Nat.le_refl _)
        rw [more]
    | some tag =>
      rw [was] at kept
      rw [if_pos (kept.inserts next fits named)]
      rw [named, Option.toList_some] at more
      have last := id_of_row fits named
      have unheld : ¬ found.stage.held.any (·.key = row.key) = true := by
        rw [was]
        exact unheld
      have names := new_name here named unheld new free
      have rows : (s.tables.wdTags ++ ((found.stage.wdTags ++ [tag]) ++ s.others i)).Perm
          (tag :: (s.tables.wdTags ++ (found.stage.wdTags ++ s.others i))) := by
        rw [List.append_assoc, ← List.append_assoc, List.singleton_append, ← List.append_assoc]
        exact List.perm_middle
      have after := @wdTags_moved _ _ _ s i found (.running statement (pending.eraseIdx place) (held ++ [row]) rest)
        { s.tables with nextTag := s.tables.nextTag + 1 } here
      rw [more] at after
      refine ⟨(pairwise_perm (after.trans rows)).mpr (List.pairwise_cons.mpr ⟨fun other member => ?_, apart⟩), fun other member => ?_⟩
      · refine ⟨(names other (before.mem_iff.mpr member)).symm, ?_⟩
        rw [last]
        exact (Nat.ne_of_lt (below other member)).symm
      · rcases List.mem_cons.mp ((after.trans rows).mem_iff.mp member) with rfl | old
        · rw [last]
          exact Nat.lt_succ_self _
        · exact Nat.lt_succ_of_lt (below other old)

end Moves

theorem step_grows (input : Input Tensor Score) : Grows s.tables (step collation half s input).tables := by
  cases input with
  | start res => exact .refl _
  | claim ids => exact ⟨fun _ => id, (Grows.refl s.tables).links⟩
  | arrive id => exact ⟨fun _ member => member, (Grows.refl s.tables).links⟩
  | advance i pick =>
    rw [Record.step]
    rcases advance_cases collation half s i pick with idle | ⟨found, stage, tables, here, made, moves⟩
    · rw [idle]
      exact .refl _
    · rw [made]
      exact moves.grows
  | fail i =>
    rw [Record.step]
    rcases fail_cases collation half s i with idle | ⟨found, stage, tables, here, made, moves⟩
    · rw [idle]
      exact .refl _
    · rw [made]
      exact moves.grows

theorem Numbered.step (numbered : Numbered s) (sound : Sound half s) (input : Input Tensor Score) :
    Numbered (step collation half s input) := by
  cases input with
  | claim ids => exact ⟨numbered.apart, numbered.below⟩
  | arrive id => exact ⟨numbered.apart, numbered.below⟩
  | start res =>
    have same : (Record.step collation half s (.start res)).wdTags = s.wdTags := by
      rw [State.wdTags, Record.step, List.flatMap_append]
      exact congrArg (s.tables.wdTags ++ ·) (List.append_nil _)
    exact ⟨same ▸ numbered.apart, same ▸ numbered.below⟩
  | advance i pick =>
    rw [Record.step]
    rcases advance_cases collation half s i pick with idle | ⟨found, stage, tables, here, made, moves⟩
    · rw [idle]
      exact numbered
    · rw [made]
      exact numbered.moved sound here moves
  | fail i =>
    rw [Record.step]
    rcases fail_cases collation half s i with idle | ⟨found, stage, tables, here, made, moves⟩
    · rw [idle]
      exact numbered
    · rw [made]
      exact numbered.moved sound here moves

theorem numbered_of_run {guard : Guard (State Tensor Score Half) (Input Tensor Score) Unit}
    {past : List (Event (State Tensor Score Half) (Input Tensor Score) Unit)}
    (run : (machine collation half Tables.empty).Run guard ⟨Tables.empty, []⟩ past s) : Numbered s := by
  apply run.invariant fun _ s => Numbered s
  · exact ⟨List.Pairwise.nil, fun _ member => absurd member List.not_mem_nil⟩
  · intro _ s input earlier _ numbered
    exact numbered.step (sound_of_run earlier) input

section Tables
variable (numbered : Numbered s)
include numbered

theorem Numbered.names : (s.tables.wdTags.map (·.name)).Nodup := by
  rw [List.Nodup, List.pairwise_map]
  exact (List.pairwise_append.mp numbered.apart).1.imp And.left

theorem Numbered.ids : (s.tables.wdTags.map (·.id)).Nodup := by
  rw [List.Nodup, List.pairwise_map]
  exact (List.pairwise_append.mp numbered.apart).1.imp And.right

end Tables
end LetsEmbed.Record
