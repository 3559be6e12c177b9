import LetsEmbed.Proofs.RecordTags
import LetsEmbed.Systems.Ordered

/-! Writes of disjoint images cannot deadlock each other: tag names are what they have in
common, and each takes them in ascending order. -/

namespace LetsEmbed.Record
open Systems Pipeline

variable {Tensor Score Half : Type} {collation : Collation} {half : Tensor → Half} {s : State Tensor Score Half}
  {i j : Nat} {tables : Tables Score Half} {res : List (Int × Option (Inferred Tensor Score))}

/-! ## The order of tags -/

def Collation.Before (collation : Collation) (a b : String) : Prop := collation.le a b = true ∧ a ≠ b

instance Collation.beforeTrans (collation : Collation) : IsTrans String collation.Before where
  trans a b c first second := by
    refine ⟨collation.trans a b c first.1 second.1, fun same => ?_⟩
    subst same
    exact first.2 (collation.antisymm a b first.1 second.1)

instance Collation.beforeIrrefl (collation : Collation) : Std.Irrefl collation.Before where
  irrefl _ before := before.2 rfl

theorem tagItems_ascending (collation : Collation) (write : Write Score Half) :
    (tagItems collation write).Pairwise collation.Before := by
  have total : Std.Total fun a b => collation.le a b = true := ⟨fun a b => Bool.or_eq_true_iff.mp (collation.total a b)⟩
  have trans : IsTrans String fun a b => collation.le a b = true := ⟨collation.trans⟩
  have sorted := List.pairwise_insertionSort (fun a b => collation.le a b = true) (write.tagNames.filter (!Db.blank ·)).dedup
  have once : (tagItems collation write).Nodup :=
    (List.perm_insertionSort (fun a b => collation.le a b = true) _).nodup_iff.mpr (List.nodup_dedup _)
  exact sorted.imp₂ (fun _ _ ordered different => ⟨ordered, different⟩) once

def Row.tagName : Row Score → Option String
  | .tag row => some row.name
  | _ => none

def Item.tagName : Item Score → Option String
  | .tag name => some name
  | _ => none

/-- The tags a write has, and the one it is at. -/
def Stage.taking : Stage Score → Ordered.Taking String
  | .running .insertTags pending held _ => ⟨held.filterMap Row.tagName, pending.head?.bind Item.tagName⟩
  | stage => ⟨stage.held.filterMap Row.tagName, none⟩

/-! ## Apart from each other -/

def images (res : List (Int × Option (Inferred Tensor Score))) : List Int := res.map (·.1)

/-- Its tag names fit their column, or are refused. -/
def Fitting (res : List (Int × Option (Inferred Tensor Score))) : Prop :=
  ∀ entry ∈ inferredTags res, ∀ stored ∈ Db.assign nameLimit entry.2.1, stored = entry.2.1

instance Fitting.decidable (res : List (Int × Option (Inferred Tensor Score))) : Decidable (Fitting res) :=
  inferInstanceAs (Decidable (∀ entry ∈ inferredTags res, _))

/-- A write starts on images that no write under way has. -/
def disjoint : Guard (State Tensor Score Half) (Input Tensor Score) Unit := fun _ s input =>
  match input with
  | .start res => Fitting res ∧
    ∀ session ∈ s.sessions, session.stage.isOver = false → ∀ id ∈ images res, id ∉ images session.res
  | _ => True

instance disjoint.decidable (past : List (Event (State Tensor Score Half) (Input Tensor Score) Unit)) (s : State Tensor Score Half)
    (input : Input Tensor Score) : Decidable (disjoint past s input) :=
  match input with
  | .start _ => inferInstanceAs (Decidable (_ ∧ _))
  | .advance _ _ | .fail _ | .claim _ | .arrive _ => .isTrue trivial

/-- What a running statement holds and is about to take, tags in ascending order. -/
def Sorted (collation : Collation) : Stage Score → Prop
  | .running .insertTags pending held _ =>
    (∀ name, .tag name ∈ pending → ∀ stored, Db.assign nameLimit name = some stored → stored = name) ∧
      (held.filterMap Row.tagName ++ pending.filterMap Item.tagName).Pairwise collation.Before
  | _ => True

structure Orderly (collation : Collation) (s : State Tensor Score Half) : Prop where
  fitting : ∀ session ∈ s.sessions, Fitting session.res
  sorted : ∀ session ∈ s.sessions, Sorted collation session.stage
  apart : ∀ (i j : Nat) (a b : Session Tensor Score), s.sessions[i]? = some a → s.sessions[j]? = some b → i ≠ j → a.stage.isOver = false →
    b.stage.isOver = false → ∀ id ∈ images a.res, id ∉ images b.res
  exclusive : ∀ (i j : Nat) (a b : Session Tensor Score), s.sessions[i]? = some a → s.sessions[j]? = some b → i ≠ j →
    ∀ row ∈ a.stage.held, ∀ other ∈ b.stage.held, row.key ≠ other.key
  fresh : ∀ session ∈ s.sessions, ∀ row ∈ session.stage.held, ∀ tag ∈ s.tables.wdTags, row.key ≠ .tag tag.name

theorem isOver_of_held {stage : Stage Score} {row : Row Score} (member : row ∈ stage.held) : stage.isOver = false := by
  cases stage with
  | running => rfl
  | ready | failed => cases member

/-- Who a session is after another one moved. -/
theorem moved_get {found session : Session Tensor Score} {stage : Stage Score} (here : s.sessions[i]? = some found)
    (there : (s.moved i found stage tables).sessions[j]? = some session) :
    (i = j ∧ session = { found with stage }) ∨ (i ≠ j ∧ s.sessions[j]? = some session) := by
  rw [State.moved, List.getElem?_set] at there
  split at there
  next same =>
    rw [if_pos (List.getElem?_eq_some_iff.mp here).1] at there
    exact .inl ⟨same, (Option.some.inj there).symm⟩
  next different => exact .inr ⟨different, there⟩

section Moves
variable {found : Session Tensor Score} {stage : Stage Score}

theorem Moves.running (moves : Moves collation half s i found stage tables) : found.stage.isOver = false := by
  cases moves with
  | fail before => exact before
  | begin before | skip before | take before | commit before =>
    rw [before]
    rfl

theorem Moves.heldNext (moves : Moves collation half s i found stage tables) {row : Row Score} (member : row ∈ stage.held) :
    row ∈ found.stage.held ∨ s.locked i row.key = false ∧ ∀ tag ∈ s.tables.wdTags, row.key ≠ .tag tag.name := by
  cases moves with
  | begin | commit | fail => cases member
  | skip before =>
    rw [before]
    exact .inl member
  | take before next front fits unheld new free =>
    rw [before]
    rcases List.mem_append.mp member with old | last
    · exact .inl old
    · rw [List.mem_singleton.mp last]
      refine .inr ⟨Bool.eq_false_iff.mpr free, fun tag there same => new ?_⟩
      exact List.any_eq_true.mpr ⟨tag, there, decide_eq_true same⟩

theorem Moves.tagsNext (moves : Moves collation half s i found stage tables) {tag : WdTag} (member : tag ∈ tables.wdTags) :
    tag ∈ s.tables.wdTags ∨ stage.held = [] ∧ .tag tag ∈ found.stage.held := by
  cases moves with
  | begin | skip | fail => exact .inl member
  | take before next front fits unheld new free =>
    split at member
    next => exact .inl member
    next => exact .inl member
  | commit before referenced =>
    refine (mem_puts_tags member).imp id fun member => ⟨rfl, ?_⟩
    rw [before]
    exact member

/-- What is held next is the item's name, unless the item is let be. -/
theorem filterMap_take {item : Item Score} {row : Row Score} {id : Nat} (fits : item.row id = some row)
    (exactly : ∀ name, item = .tag name → ∀ stored, Db.assign nameLimit name = some stored → stored = name) :
    row.tagName = item.tagName := by
  cases item with
  | tag name =>
    obtain ⟨stored, assigned, rfl⟩ := Option.map_eq_some_iff.mp fits
    exact congrArg some (exactly name rfl stored assigned)
  | link link =>
    obtain rfl := Option.some.inj fits
    rfl
  | image image entry =>
    obtain rfl := Option.some.inj fits
    rfl

theorem Moves.sorted (moves : Moves collation half s i found stage tables) (fitting : Fitting found.res)
    (sorted : Sorted collation found.stage) : Sorted collation stage := by
  cases moves with
  | commit | fail => trivial
  | @begin statement rest before =>
    cases statement with
    | upsertLinks | completeImages | resetImages => trivial
    | insertTags =>
      have names : ((tagItems collation (record half found.res)).map fun name => (.tag name : Item Score)).filterMap Item.tagName =
          tagItems collation (record half found.res) := by
        rw [List.filterMap_map]
        exact List.filterMap_some
      refine ⟨fun name member => ?_, ?_⟩
      · obtain ⟨same, listed, tag⟩ := List.mem_map.mp member
        obtain rfl := Item.tag.inj tag
        obtain ⟨⟨id, score, inferred⟩, _⟩ := mem_tagItems.mp listed
        exact fitting (id, same, score) inferred
      · rw [items, names]
        exact tagItems_ascending collation _
  | @skip statement pending held rest place item row before next front fits there =>
    rw [before] at sorted
    cases statement with
    | upsertLinks | completeImages | resetImages => trivial
    | insertTags =>
      refine ⟨fun name member => sorted.1 name (List.mem_of_mem_eraseIdx member), ?_⟩
      exact sorted.2.sublist ((List.Sublist.refl _).append ((List.eraseIdx_sublist pending place).filterMap _))
  | @take statement pending held rest place item row before next front fits unheld new free =>
    rw [before] at sorted
    cases statement with
    | upsertLinks | completeImages | resetImages => trivial
    | insertTags =>
      obtain rfl := front rfl
      cases pending with
      | nil => cases next
      | cons first later =>
        obtain rfl := Option.some.inj next
        have same := filterMap_take fits fun name tag => sorted.1 name (tag ▸ List.mem_cons_self)
        refine ⟨fun name member => sorted.1 name (List.mem_cons_of_mem _ member), ?_⟩
        have names : (held ++ [row]).filterMap Row.tagName ++ later.filterMap Item.tagName =
            held.filterMap Row.tagName ++ (first :: later).filterMap Item.tagName := by
          rw [List.filterMap_append, List.append_assoc]
          cases named : first.tagName with
          | none => simp [named, same]
          | some name => simp [named, same]
        rw [List.eraseIdx_cons_zero, names]
        exact sorted.2

end Moves

theorem Orderly.moved {found : Session Tensor Score} {stage : Stage Score} (orderly : Orderly collation s)
    (here : s.sessions[i]? = some found) (moves : Moves collation half s i found stage tables) :
    Orderly collation (s.moved i found stage tables) := by
  have member := List.mem_of_getElem? here
  constructor
  · intro session inside
    rcases List.mem_or_eq_of_mem_set inside with old | rfl
    · exact orderly.fitting session old
    · exact orderly.fitting found member
  · intro session inside
    rcases List.mem_or_eq_of_mem_set inside with old | rfl
    · exact orderly.sorted session old
    · exact moves.sorted (orderly.fitting found member) (orderly.sorted found member)
  · intro j k a b atJ atK different runningA runningB
    rcases moved_get here atJ with ⟨rfl, rfl⟩ | ⟨_, oldA⟩
    · rcases moved_get here atK with ⟨rfl, rfl⟩ | ⟨_, oldB⟩
      · exact (different rfl).elim
      · exact orderly.apart i k found b here oldB different moves.running runningB
    · rcases moved_get here atK with ⟨rfl, rfl⟩ | ⟨_, oldB⟩
      · exact orderly.apart j i a found oldA here different runningA moves.running
      · exact orderly.apart j k a b oldA oldB different runningA runningB
  · have against : ∀ k (b : Session Tensor Score), s.sessions[k]? = some b → i ≠ k → ∀ row ∈ stage.held, ∀ other ∈ b.stage.held,
        row.key ≠ other.key := by
      intro k b there different row held other holds same
      rcases moves.heldNext held with old | ⟨free, _⟩
      · exact orderly.exclusive i k found b here there different row old other holds same
      · have taken : s.locked i row.key = true := locked_iff.mpr ⟨k, b, different, there, other, holds, same.symm⟩
        rw [taken] at free
        cases free
    intro j k a b atJ atK different row held other holds
    rcases moved_get here atJ with ⟨rfl, rfl⟩ | ⟨_, oldA⟩
    · rcases moved_get here atK with ⟨rfl, rfl⟩ | ⟨_, oldB⟩
      · exact (different rfl).elim
      · exact against k b oldB different row held other holds
    · rcases moved_get here atK with ⟨rfl, rfl⟩ | ⟨_, oldB⟩
      · exact (against j a oldA different.symm other holds row held).symm
      · exact orderly.exclusive j k a b oldA oldB different row held other holds
  · intro session inside row held tag there
    obtain ⟨j, at_⟩ := List.mem_iff_getElem?.mp inside
    rcases moved_get here at_ with ⟨rfl, rfl⟩ | ⟨different, old⟩
    · rcases moves.tagsNext there with old | ⟨nothing, _⟩
      · rcases moves.heldNext held with before | ⟨_, new⟩
        · exact orderly.fresh found member row before tag old
        · exact new tag old
      · dsimp only at held
        rw [nothing] at held
        cases held
    · rcases moves.tagsNext there with before | ⟨_, put⟩
      · exact orderly.fresh session (List.mem_of_getElem? old) row held tag before
      · exact orderly.exclusive j i session found old here different.symm row held _ put

theorem Orderly.step (orderly : Orderly collation s) {input : Input Tensor Score}
    (allowed : disjoint [] s input) : Orderly collation (step collation half s input) := by
  cases input with
  | claim ids => exact ⟨orderly.fitting, orderly.sorted, orderly.apart, orderly.exclusive, orderly.fresh⟩
  | arrive id => exact ⟨orderly.fitting, orderly.sorted, orderly.apart, orderly.exclusive, orderly.fresh⟩
  | advance i pick =>
    rw [Record.step]
    rcases advance_cases collation half s i pick with idle | ⟨found, stage, tables, here, made, moves⟩
    · rw [idle]
      exact orderly
    · rw [made]
      exact orderly.moved here moves
  | fail i =>
    rw [Record.step]
    rcases fail_cases collation half s i with idle | ⟨found, stage, tables, here, made, moves⟩
    · rw [idle]
      exact orderly
    · rw [made]
      exact orderly.moved here moves
  | start res =>
    obtain ⟨fitting, apart⟩ := allowed
    have split : ∀ (j : Nat) (a : Session Tensor Score), (s.sessions ++ [⟨res, .ready (statements (record half res))⟩])[j]? = some a →
        s.sessions[j]? = some a ∨ j = s.sessions.length ∧ a = ⟨res, .ready (statements (record half res))⟩ := by
      intro j a there
      rw [List.getElem?_append] at there
      split at there
      next => exact .inl there
      next outside =>
        rw [List.getElem?_singleton, Option.ite_none_right_eq_some] at there
        exact .inr ⟨by omega, (Option.some.inj there.2).symm⟩
    constructor
    · intro session inside
      rcases List.mem_append.mp inside with old | new
      · exact orderly.fitting session old
      · rw [List.mem_singleton.mp new]
        exact fitting
    · intro session inside
      rcases List.mem_append.mp inside with old | new
      · exact orderly.sorted session old
      · rw [List.mem_singleton.mp new]
        trivial
    · intro j k a b atJ atK different runningA runningB id inA inB
      rcases split j a atJ with oldA | ⟨lastA, rfl⟩
      · rcases split k b atK with oldB | ⟨_, rfl⟩
        · exact orderly.apart j k a b oldA oldB different runningA runningB id inA inB
        · exact apart a (List.mem_of_getElem? oldA) runningA id inB inA
      · rcases split k b atK with oldB | ⟨lastB, rfl⟩
        · exact apart b (List.mem_of_getElem? oldB) runningB id inA inB
        · exact different (lastA.trans lastB.symm)
    · intro j k a b atJ atK different row held other holds
      rcases split j a atJ with oldA | ⟨_, rfl⟩
      · rcases split k b atK with oldB | ⟨_, rfl⟩
        · exact orderly.exclusive j k a b oldA oldB different row held other holds
        · cases holds
      · cases held
    · intro session inside row held
      rcases List.mem_append.mp inside with old | new
      · exact orderly.fresh session old row held
      · rw [List.mem_singleton.mp new] at held
        cases held

/-! ## How far writes are -/

/-- The most that a statement can find to do. -/
def Statement.size (write : Write Score Half) : Statement → Nat
  | .insertTags => write.tagNames.length
  | .upsertLinks => write.wdIds.length
  | .completeImages => write.completedIds.length
  | .resetImages => write.failedIds.length

def remaining (write : Write Score Half) (rest : List Statement) : Nat := (rest.map fun statement => statement.size write + 2).sum

def Stage.remaining (write : Write Score Half) : Stage Score → Nat
  | .ready rest => Record.remaining write rest
  | .running _ pending _ rest => pending.length + 1 + Record.remaining write rest
  | .failed => 0

def State.remaining (half : Tensor → Half) (s : State Tensor Score Half) : Nat :=
  (s.sessions.map fun session => session.stage.remaining (record half session.res)).sum

theorem sum_map_set {α : Type} {f : α → Nat} {items : List α} {place : Nat} {old new : α} (there : items[place]? = some old) :
    ((items.set place new).map f).sum + f old = (items.map f).sum + f new := by
  induction items generalizing place with
  | nil => cases there
  | cons first rest ih =>
    cases place with
    | zero =>
      obtain rfl := Option.some.inj there
      simp only [List.set_cons_zero, List.map_cons, List.sum_cons]
      omega
    | succ place =>
      rw [List.getElem?_cons_succ] at there
      have later := ih there
      simp only [List.set_cons_succ, List.map_cons, List.sum_cons]
      omega

theorem length_flatMap_le {α β : Type} {f : α → List β} {items : List α} (each : ∀ item ∈ items, (f item).length ≤ 1) :
    (items.flatMap f).length ≤ items.length := by
  induction items with
  | nil => exact Nat.le_refl 0
  | cons first rest ih =>
    obtain ⟨here, later⟩ := List.forall_mem_cons.mp each
    have := ih later
    rw [List.flatMap_cons, List.length_append, List.length_cons]
    omega

theorem tagged_length (unique : (tables.wdTags.map (·.name)).Nodup) (name : String) : (tables.tagged name).length ≤ 1 := by
  have same : (tables.tagged name).map (·.name) = (tables.wdTags.map (·.name)).filter (· == name) := by
    rw [Tables.tagged, List.filter_map]
    rfl
  rw [← List.length_map (f := fun tag : WdTag => tag.name), same, ← List.count_eq_length_filter]
  exact List.nodup_iff_count_le_one.mp unique name

theorem items_length (collation : Collation) (unique : (tables.wdTags.map (·.name)).Nodup) (write : Write Score Half)
    (statement : Statement) : (items collation tables write statement).length ≤ statement.size write := by
  have images (ids : List Int) : (imageItems tables ids).length ≤ ids.length :=
    (List.length_filter_le _ _).trans (List.length_zipIdx).le
  cases statement with
  | insertTags =>
    rw [items, List.length_map, tagItems, List.length_insertionSort]
    exact (List.dedup_sublist _).length_le.trans (List.length_filter_le _ _)
  | upsertLinks =>
    rw [items, List.length_map, linkItems]
    refine (length_flatMap_le fun entry _ => ?_).trans ?_
    · rw [List.length_map]
      exact tagged_length unique _
    · rw [List.length_zip]
      exact Nat.min_le_left _ _
  | completeImages =>
    rw [items, List.length_map]
    exact images _
  | resetImages =>
    rw [items, List.length_map]
    exact images _

theorem Moves.remaining {found : Session Tensor Score} {stage : Stage Score}
    (moves : Moves collation half s i found stage tables) (unique : (s.tables.wdTags.map (·.name)).Nodup) :
    stage.remaining (record half found.res) < found.stage.remaining (record half found.res) := by
  have shorter {pending : List (Item Score)} {place : Nat} {item : Item Score} (next : pending[place]? = some item) :
      (pending.eraseIdx place).length + 1 = pending.length := by
    have inside := (List.getElem?_eq_some_iff.mp next).1
    rw [List.length_eraseIdx_of_lt inside]
    omega
  cases moves with
  | @begin statement rest before =>
    have fewer := items_length collation unique (record half found.res) statement
    rw [before, Stage.remaining, Stage.remaining, Record.remaining, Record.remaining, List.map_cons, List.sum_cons]
    omega
  | skip before next | take before next =>
    have := shorter next
    rw [before, Stage.remaining, Stage.remaining]
    omega
  | commit before referenced =>
    rw [before, Stage.remaining, Stage.remaining, List.length_nil]
    omega
  | fail before =>
    rw [Stage.remaining]
    cases stage : found.stage with
    | failed =>
      rw [stage] at before
      cases before
    | running statement pending held rest =>
      rw [Stage.remaining]
      omega
    | ready rest =>
      cases rest with
      | nil =>
        rw [stage] at before
        cases before
      | cons statement rest =>
        rw [Stage.remaining, Record.remaining, List.map_cons, List.sum_cons]
        omega

theorem moved_remaining {found : Session Tensor Score} {stage : Stage Score} (unique : (s.tables.wdTags.map (·.name)).Nodup)
    (here : s.sessions[i]? = some found) (moves : Moves collation half s i found stage tables) :
    (s.moved i found stage tables).remaining half < s.remaining half := by
  have less := moves.remaining unique
  have sums := @sum_map_set _ (fun session : Session Tensor Score => session.stage.remaining (record half session.res)) _ _ _
    { found with stage } here
  rw [State.remaining, State.remaining, State.moved]
  dsimp only at sums ⊢
  omega

/-! ## Nobody waits for good -/

theorem taking_held (stage : Stage Score) : stage.taking.held = stage.held.filterMap Row.tagName := by
  unfold Stage.taking
  split
  next => rfl
  next => rfl

theorem Sorted.ascending {stage : Stage Score} (sorted : Sorted collation stage) : stage.taking.Ascending collation.Before := by
  unfold Stage.taking
  split
  next pending held rest =>
    intro name at_ earlier before
    obtain ⟨item, first, named⟩ := Option.bind_eq_some_iff.mp at_
    have listed : name ∈ pending.filterMap Item.tagName := List.mem_filterMap.mpr ⟨item, List.mem_of_head? first, named⟩
    exact (List.pairwise_append.mp sorted.2).2.2 earlier before name listed
  next =>
    intro name at_
    cases at_

theorem image_mem_images {id : Int} {statement : Statement} {row : Row Score} (of : row.Of half tables res statement)
    (about : (∃ tag, row.key = .link tag id) ∨ row.key = .image id) : id ∈ images res := by
  cases row with
  | tag row => rcases about with ⟨tag, wrong⟩ | wrong <;> cases wrong
  | link row =>
    rcases about with ⟨tag, same⟩ | wrong
    · obtain ⟨_, rfl⟩ := Key.link.inj same
      obtain ⟨_, listed⟩ := of
      obtain ⟨_, _, _, inferred⟩ := mem_linkItems.mp listed
      obtain ⟨outcome, member, _⟩ := mem_inferredTags.mp inferred
      exact List.mem_map_of_mem (f := (·.1)) member
    · cases wrong
  | image image entry =>
    rcases about with ⟨tag, wrong⟩ | same
    · cases wrong
    · obtain rfl := Key.image.inj same
      rcases of with ⟨_, at_⟩ | ⟨_, at_⟩
      · obtain ⟨outcome, member, _⟩ := completed_entry at_
        exact List.mem_map_of_mem (f := (·.1)) member
      · rw [record_eq] at at_
        obtain ⟨found, there, rfl⟩ := List.mem_map.mp (List.mem_of_getElem? at_)
        exact List.mem_map_of_mem (f := (·.1)) (List.mem_filter.mp there).1

/-- Only tags are wanted by two writes. -/
theorem tag_of_locked (orderly : Orderly collation s) (sound : Sound half s) {found : Session Tensor Score}
    (here : s.sessions[i]? = some found) (running : found.stage.isOver = false) {statement : Statement} {row : Row Score}
    (of : row.Of half s.tables found.res statement) (locked : s.locked i row.key = true) :
    ∃ name, row.key = .tag name ∧ ∃ other ∈ s.sessions, other.stage.isOver = false ∧ name ∈ other.stage.taking.held := by
  obtain ⟨j, other, different, there, taken, holds, same⟩ := locked_iff.mp locked
  have going := isOver_of_held holds
  have apart := orderly.apart i j found other here there different running going
  have known : ∃ statement, taken.Of half s.tables other.res statement := by
    have kept := sound.kept other (List.mem_of_getElem? there)
    cases stage : other.stage with
    | ready rest | failed =>
      rw [stage] at holds
      cases holds
    | running statement pending held rest =>
      rw [stage] at kept holds
      exact ⟨statement, kept.2.heldOf taken holds⟩
  obtain ⟨statement, takenOf⟩ := known
  cases key : row.key with
  | tag name =>
    refine ⟨name, rfl, other, List.mem_of_getElem? there, going, ?_⟩
    rw [taking_held]
    refine List.mem_filterMap.mpr ⟨taken, holds, ?_⟩
    rw [key] at same
    cases taken with
    | tag tag => exact congrArg some (Key.tag.inj same)
    | link link => cases same
    | image id entry => cases same
  | link tag id =>
    rw [key] at same
    exact (apart id (image_mem_images of (.inl ⟨tag, key⟩)) (image_mem_images takenOf (.inl ⟨tag, same⟩))).elim
  | image id =>
    rw [key] at same
    exact (apart id (image_mem_images of (.inr key)) (image_mem_images takenOf (.inr same))).elim

theorem Orderly.progress (orderly : Orderly collation s) (sound : Sound half s)
    (going : ∃ session ∈ s.sessions, session.stage.isOver = false) :
    ∃ i found stage tables, s.sessions[i]? = some found ∧ s.advance collation half i 0 = s.moved i found stage tables ∧
      Moves collation half s i found stage tables := by
  have nonempty : (s.sessions.filter (!·.stage.isOver)).map (·.stage.taking) ≠ [] := by
    obtain ⟨session, member, running⟩ := going
    refine List.ne_nil_of_mem (List.mem_map_of_mem (List.mem_filter.mpr ⟨member, ?_⟩))
    rw [running]
    rfl
  obtain ⟨process, chosen, unblocked⟩ := Ordered.exists_unblocked (r := collation.Before) nonempty fun process member => by
    obtain ⟨session, inside, rfl⟩ := List.mem_map.mp member
    exact (orderly.sorted session (List.mem_filter.mp inside).1).ascending
  obtain ⟨found, inside, rfl⟩ := List.mem_map.mp chosen
  obtain ⟨member, unfinished⟩ := List.mem_filter.mp inside
  have running : found.stage.isOver = false := (Bool.not_eq_true' _).mp unfinished
  obtain ⟨i, here⟩ := List.mem_iff_getElem?.mp member
  refine ⟨i, found, ?_⟩
  rw [State.advance, here]
  dsimp only
  split
  next statement rest before => exact ⟨_, _, rfl, rfl, .begin before⟩
  next statement held rest before =>
    rw [State.commit]
    split
    next referenced => exact ⟨_, _, rfl, rfl, .commit before referenced⟩
    next => exact ⟨_, _, rfl, rfl, .fail running⟩
  next statement pending held rest nonempty before =>
    have kept := sound.kept found member
    rw [before] at kept
    cases pending with
    | nil => exact (nonempty rfl).elim
    | cons item later =>
      rw [ite_self]
      rcases take_cases (s := s) (i := i) before (List.getElem?_cons_zero) fun _ => rfl with ⟨row, fits, locked, _⟩ | ⟨stage, tables, made, moves⟩
      · have of := kept.2.pendingOf item List.mem_cons_self _ row fits
        obtain ⟨name, key, other, there, others, holds⟩ := tag_of_locked orderly sound here running of locked
        refine (unblocked _ (List.mem_map_of_mem (List.mem_filter.mpr ⟨there, (Bool.not_eq_true' _).mpr others⟩)) ⟨name, ?_, holds⟩).elim
        cases row with
        | link row => cases key
        | image id entry => cases key
        | tag row =>
          obtain rfl : statement = .insertTags := of
          have sorted := orderly.sorted found member
          rw [before] at sorted
          have same := filterMap_take fits fun name tag => sorted.1 name (tag ▸ List.mem_cons_self)
          rw [before]
          change item.tagName = some name
          rw [← same]
          exact congrArg some (Key.tag.inj key)
      · exact ⟨stage, tables, rfl, made, moves⟩
  next none_left =>
    cases stage : found.stage with
    | failed =>
      rw [stage] at running
      cases running
    | running statement pending held rest => exact (none_left _ _ _ _ stage).elim
    | ready rest =>
      cases rest with
      | nil =>
        rw [stage] at running
        cases running
      | cons statement rest => exact (‹∀ statement rest, found.stage = .ready (statement :: rest) → False› _ _ stage).elim

theorem orderly_of_run {past : List (Event (State Tensor Score Half) (Input Tensor Score) Unit)}
    (run : (machine collation half Tables.empty).Run disjoint ⟨Tables.empty, []⟩ past s) : Orderly collation s := by
  apply run.invariant fun _ s => Orderly collation s
  · constructor
    · exact fun _ member => absurd member List.not_mem_nil
    · exact fun _ member => absurd member List.not_mem_nil
    · intro i j a b there
      cases there
    · intro i j a b there
      cases there
    · exact fun _ member => absurd member List.not_mem_nil
  · intro past s input _ allowed orderly
    exact orderly.step allowed

def turn (collation : Collation) (half : Tensor → Half) (s : State Tensor Score Half) (choice : Nat × Nat) : State Tensor Score Half :=
  s.advance collation half choice.1 choice.2

/-- Turns each of which somebody makes use of. -/
def Effective (collation : Collation) (half : Tensor → Half) (s : State Tensor Score Half) : List (Nat × Nat) → Prop
  | [] => True
  | choice :: rest => turn collation half s choice ≠ s ∧ Effective collation half (turn collation half s choice) rest

/-- However the writes under way are scheduled, their turns come to an end, and they only
stop when each write is through or has failed. -/
theorem writes_finish {past : List (Event (State Tensor Score Half) (Input Tensor Score) Unit)}
    (run : (machine collation half Tables.empty).Run disjoint ⟨Tables.empty, []⟩ past s) (schedule : List (Nat × Nat))
    (effective : Effective collation half s schedule) :
    schedule.length ≤ s.remaining half ∧
      ((∀ choice, turn collation half (schedule.foldl (turn collation half) s) choice = schedule.foldl (turn collation half) s) →
        ∀ session ∈ (schedule.foldl (turn collation half) s).sessions, session.stage.isOver = true) := by
  induction schedule generalizing past s with
  | nil =>
    refine ⟨Nat.zero_le _, fun stuck session member => ?_⟩
    by_contra unfinished
    have orderly := orderly_of_run run
    obtain ⟨i, found, stage, tables, here, made, moves⟩ :=
      orderly.progress (sound_of_run run) ⟨session, member, Bool.eq_false_iff.mpr unfinished⟩
    have less := moved_remaining (numbered_of_run run).names here moves
    rw [← made] at less
    exact Nat.ne_of_lt less (congrArg (State.remaining half) (stuck (i, 0)))
  | cons choice rest ih =>
    obtain ⟨moves, later⟩ := effective
    have allowed : disjoint past s (.advance choice.1 choice.2) := trivial
    have next : (machine collation half Tables.empty).Run disjoint ⟨Tables.empty, []⟩ _ (turn collation half s choice) :=
      run.step allowed
    obtain ⟨short, finish⟩ := ih next later
    refine ⟨?_, finish⟩
    rcases advance_cases collation half s choice.1 choice.2 with idle | ⟨found, stage, tables, here, made, moved⟩
    · exact (moves idle).elim
    · have less := moved_remaining (numbered_of_run run).names here moved
      rw [turn, made] at short
      rw [List.length_cons]
      omega

section Example
open Machine

def pair (id : Int) (tags : List String) : Int × Option (Inferred Nat Nat) :=
  (id, some (tags.map fun name => (⟨.general, name⟩, 5), 10, 20))

/-- Two writes with the same two new tags, found in opposite order. -/
def crossed : List (Input Nat Nat) := [
  .arrive 1, .arrive 2, .start [pair 1 ["hat", "cat"]], .start [pair 2 ["cat", "hat"]], .advance 0 0, .advance 1 0, .advance 0 0]

theorem writes_finish_crossed :
    let s := ((machine codePoints (· + 100) Tables.empty).play ([], ⟨Tables.empty, []⟩) crossed).2
    turn codePoints (· + 100) s (1, 0) = s ∧ [(0, 0), (0, 0), (1, 0)].length ≤ s.remaining (· + 100) := by
  have run : (machine codePoints (· + 100) Tables.empty).Run disjoint ⟨Tables.empty, []⟩ _ _ :=
    Run.start.play crossed (by decide +kernel)
  have changes {s late : State Nat Nat Nat} (less : late.remaining (· + 100) ≠ s.remaining (· + 100)) : late ≠ s :=
    fun same => less (congrArg (State.remaining (· + 100)) same)
  refine ⟨rfl, (writes_finish run [(0, 0), (0, 0), (1, 0)] ⟨?_, ?_, ?_, trivial⟩).1⟩
  · exact changes (by decide +kernel)
  · exact changes (by decide +kernel)
  · exact changes (by decide +kernel)

end Example

end LetsEmbed.Record
