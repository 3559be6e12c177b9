import LetsEmbed.Pipeline
import Mathlib.Data.List.Forall2

/-! Which image a result belongs to. Between an image and its row in the database
its id and its tensors go separate ways; every image is accounted for by one row
that tells both, and the arrays of a write are read off those rows. -/

namespace LetsEmbed.Pipeline
open Systems

variable {Bytes Tensor Score Half α β : Type} {crates : Crates Bytes Tensor Half}

/-- What the models compute for an image. -/
structure Models (Tensor Score : Type) where
  tags : Tensor → List (Tag × Score) → Prop
  clip : Tensor → Tensor → Prop
  dino : Tensor → Tensor → Prop

/-- A call that does not fail returns one output for each input, in order. -/
structure Calls.Aligned (models : Models Tensor Score) (calls : Calls Tensor Score) : Prop where
  tags : ∀ ins outs, calls.inferTag ins = some outs → List.Forall₂ models.tags ins outs
  clip : ∀ ins outs, calls.clipVision ins = some outs → List.Forall₂ models.clip ins outs
  dino : ∀ ins outs, calls.dinoVision ins = some outs → List.Forall₂ models.dino ins outs

def Batch.decoded (crates : Crates Bytes Tensor Half) (batch : Batch Tensor Score) : List (Image × Decoded Tensor) :=
  batch.images.filterMap fun image => (convertImage crates image).map (image, ·)

/-- One of the three calls fails on what was decoded of the batch. -/
def Batch.Fails (crates : Crates Bytes Tensor Half) (batch : Batch Tensor Score) : Prop :=
  batch.calls.inferTag ((batch.decoded crates).map (·.2.1)) = none ∨
    batch.calls.clipVision ((batch.decoded crates).map (·.2.2.1)) = none ∨
    batch.calls.dinoVision ((batch.decoded crates).map (·.2.2.2)) = none

structure Row (Tensor Score : Type) where
  batch : Batch Tensor Score
  image : Image
  outcome : Option (Inferred Tensor Score)

def Row.sent (row : Row Tensor Score) : Int × Option (Inferred Tensor Score) := (row.image.id, row.outcome)

/-- Computed from that very image, or left undone for a reason. -/
structure Row.Sound (crates : Crates Bytes Tensor Half) (models : Models Tensor Score) (row : Row Tensor Score) : Prop where
  computed : ∀ tags clip dino, row.outcome = some (tags, clip, dino) → ∃ wdImage clipImage dinoImage,
    convertImage crates row.image = some (wdImage, clipImage, dinoImage) ∧
      models.tags wdImage tags ∧ models.clip clipImage clip ∧ models.dino dinoImage dino
  undone : row.outcome = none ↔ convertImage crates row.image = none ∨ row.batch.Fails crates

/-! ## A batch -/

theorem push_parts (images : List Image) (parts : Parts Tensor) :
    let decoded := images.filterMap fun image => (convertImage crates image).map (image, ·)
    (images.map fun image => (image.id, convertImage crates image)).foldl Parts.push parts =
      { someIds := parts.someIds ++ decoded.map (·.1.id)
        wdImages := parts.wdImages ++ decoded.map (·.2.1)
        clipImages := parts.clipImages ++ decoded.map (·.2.2.1)
        dinoImages := parts.dinoImages ++ decoded.map (·.2.2.2)
        noneIds := parts.noneIds ++ (images.filter fun image => (convertImage crates image).isNone).map (·.id) } := by
  induction images generalizing parts with
  | nil => simp
  | cons image rest ih =>
    rw [List.map_cons, List.foldl_cons, ih]
    cases converted : convertImage crates image with
    | none => simp [Parts.push, converted]
    | some decoded => simp [Parts.push, converted]

theorem zipRepeat_nil (as : List α) : zipRepeat as ([] : List β) = as.map (·, none) := by
  induction as with
  | nil => rfl
  | cons a rest ih => rw [zipRepeat, ih, List.map_cons]

theorem zipRepeat_append {as more : List α} {bs : List β} (same : as.length = bs.length) :
    zipRepeat (as ++ more) bs = (as.zip (bs.map some)) ++ more.map (·, none) := by
  induction as generalizing bs with
  | nil =>
    rw [List.eq_nil_of_length_eq_zero same.symm]
    exact zipRepeat_nil more
  | cons a rest ih =>
    cases bs with
    | nil => cases same
    | cons b others =>
      rw [List.cons_append, zipRepeat, ih (Nat.succ.inj same)]
      rfl

/-- Three computations over one source, zipped, are of that source index by index. -/
theorem forall₂_zip {γ δ : Type} {R : β → α → Prop} {S T : β → γ → Prop} {f g h : δ → β} {sources : List δ} {as : List α}
    {bs cs : List γ} (first : List.Forall₂ R (sources.map f) as) (second : List.Forall₂ S (sources.map g) bs)
    (third : List.Forall₂ T (sources.map h) cs) :
    List.Forall₂ (fun source out => R (f source) out.1 ∧ S (g source) out.2.1 ∧ T (h source) out.2.2) sources
      (((as.zip bs).zip cs).map fun ((a, b), c) => (a, b, c)) := by
  induction sources generalizing as bs cs with
  | nil =>
    cases first
    exact .nil
  | cons source rest ih =>
    cases first with
    | cons related first =>
      cases second with
      | cons related' second =>
        cases third with
        | cons related'' third => exact .cons ⟨related, related', related''⟩ (ih first second third)

variable {batch : Batch Tensor Score} {models : Models Tensor Score}

theorem decoded_convert {image : Image} {decoded : Decoded Tensor} (member : (image, decoded) ∈ batch.decoded crates) :
    convertImage crates image = some decoded := by
  obtain ⟨source, _, found⟩ := List.mem_filterMap.mp member
  obtain ⟨value, converted, same⟩ := Option.map_eq_some_iff.mp found
  cases same
  exact converted

def Batch.undecoded (crates : Crates Bytes Tensor Half) (batch : Batch Tensor Score) : List Image :=
  batch.images.filter fun image => (convertImage crates image).isNone

theorem decoded_perm (crates : Crates Bytes Tensor Half) (batch : Batch Tensor Score) :
    ((batch.decoded crates).map (·.1) ++ batch.undecoded crates).Perm batch.images := by
  have kept : (batch.decoded crates).map (·.1) = batch.images.filter fun image => (convertImage crates image).isSome := by
    rw [Batch.decoded, List.map_filterMap, ← List.filterMap_eq_filter]
    congr 1
    funext image
    cases converted : convertImage crates image <;> simp [Option.guard, converted]
  have rest : batch.undecoded crates = batch.images.filter fun image => !(convertImage crates image).isSome := by
    rw [Batch.undecoded]
    congr 1
    funext image
    cases convertImage crates image <;> rfl
  rw [kept, rest]
  exact List.filter_append_perm _ _

theorem parts_eq (batch : Batch Tensor Score) :
    (batch.images.map fun image => (image.id, convertImage crates image)).foldl Parts.push {} =
      { someIds := (batch.decoded crates).map (·.1.id), wdImages := (batch.decoded crates).map (·.2.1)
        clipImages := (batch.decoded crates).map (·.2.2.1), dinoImages := (batch.decoded crates).map (·.2.2.2)
        noneIds := (batch.undecoded crates).map (·.id) } := by
  rw [push_parts]
  rfl

theorem res_undone (undone : batch.decoded crates = [] ∨ batch.Fails crates) : batch.res crates =
    ((batch.decoded crates).map (·.1) ++ batch.undecoded crates).map fun image => (image.id, none) := by
  rw [Batch.res, infer, parts_eq]
  dsimp only
  split
  next empty =>
    have nothing : batch.decoded crates = [] := by simpa using empty
    rw [zipRepeat_nil, nothing]
    simp
  next some_decoded =>
    have fails : batch.Fails crates := undone.resolve_left (by simpa using some_decoded)
    split
    next tags clip dino computed =>
      simp only [bind, Option.bind_eq_some_iff, pure, Option.some.injEq, Prod.mk.injEq] at computed
      obtain ⟨_, tagged, _, clipped, _, dinoed, _⟩ := computed
      rcases fails with failed | failed | failed
      · cases tagged.symm.trans failed
      · cases clipped.symm.trans failed
      · cases dinoed.symm.trans failed
    · simp only [zipRepeat_nil, List.map_append, List.map_map]
      rfl

theorem res_computed {tags : List (List (Tag × Score))} {clip dino : List Tensor} (some_decoded : batch.decoded crates ≠ [])
    (tagged : batch.calls.inferTag ((batch.decoded crates).map (·.2.1)) = some tags)
    (clipped : batch.calls.clipVision ((batch.decoded crates).map (·.2.2.1)) = some clip)
    (dinoed : batch.calls.dinoVision ((batch.decoded crates).map (·.2.2.2)) = some dino) :
    batch.res crates = zipRepeat ((batch.decoded crates).map (·.1.id) ++ (batch.undecoded crates).map (·.id))
      (((tags.zip clip).zip dino).map fun ((a, b), c) => (a, b, c)) := by
  have nonempty : ((batch.decoded crates).map (·.1.id)).isEmpty = false := by simpa using some_decoded
  rw [Batch.res, infer, parts_eq]
  simp only [nonempty, tagged, clipped, dinoed, bind, Option.bind_some, pure, Bool.false_eq_true, if_false]

theorem Row.Sound.idle {image : Image} (reason : convertImage crates image = none ∨ batch.Fails crates) :
    (⟨batch, image, none⟩ : Row Tensor Score).Sound crates models where
  computed _ _ _ impossible := by cases impossible
  undone := iff_of_true rfl reason

/-- Every image of a batch comes out with one row of its own. -/
theorem rows_of_batch (aligned : batch.calls.Aligned models) : ∃ rows : List (Row Tensor Score),
    rows.map Row.sent = batch.res crates ∧
      (rows.map fun row => (row.batch, row.image)).Perm (batch.images.map (batch, ·)) ∧
      ∀ row ∈ rows, row.Sound crates models := by
  have unconverted : ∀ image ∈ batch.undecoded crates, convertImage crates image = none := by
    intro image member
    exact Option.isNone_iff_eq_none.mp (List.mem_filter.mp member).2
  by_cases undone : batch.decoded crates = [] ∨ batch.Fails crates
  · refine ⟨((batch.decoded crates).map (·.1) ++ batch.undecoded crates).map (⟨batch, ·, none⟩), ?_, ?_, ?_⟩
    · rw [res_undone undone, List.map_map]
      rfl
    · rw [List.map_map]
      exact (decoded_perm crates batch).map (batch, ·)
    · intro row member
      obtain ⟨image, present, rfl⟩ := List.mem_map.mp member
      refine .idle ?_
      rcases List.mem_append.mp present with decoded | undecoded
      · refine .inr (undone.resolve_left fun nothing => ?_)
        rw [nothing] at decoded
        cases decoded
      · exact .inl (unconverted image undecoded)
  · obtain ⟨some_decoded, succeeds⟩ := not_or.mp undone
    obtain ⟨tags, tagged⟩ := Option.ne_none_iff_exists'.mp fun failed => succeeds (.inl failed)
    obtain ⟨clip, clipped⟩ := Option.ne_none_iff_exists'.mp fun failed => succeeds (.inr (.inl failed))
    obtain ⟨dino, dinoed⟩ := Option.ne_none_iff_exists'.mp fun failed => succeeds (.inr (.inr failed))
    have related := forall₂_zip (aligned.tags _ _ tagged) (aligned.clip _ _ clipped) (aligned.dino _ _ dinoed)
    have computed := res_computed some_decoded tagged clipped dinoed
    generalize (((tags.zip clip).zip dino).map fun ((a, b), c) => (a, b, c)) = outs at related computed
    have same : (batch.decoded crates).length = outs.length := related.length_eq
    refine ⟨((batch.decoded crates).zip outs).map (fun pair => ⟨batch, pair.1.1, some pair.2⟩) ++
      (batch.undecoded crates).map (⟨batch, ·, none⟩), ?_, ?_, ?_⟩
    · rw [computed, zipRepeat_append (by rwa [List.length_map]), List.zip_map, List.map_append, List.map_map, List.map_map,
        List.map_map]
      rfl
    · have firsts : ((batch.decoded crates).zip outs).map (·.1.1) = (batch.decoded crates).map (·.1) := by
        calc ((batch.decoded crates).zip outs).map (·.1.1) = (((batch.decoded crates).zip outs).map (·.1)).map (·.1) := by
              rw [List.map_map]
              rfl
          _ = (batch.decoded crates).map (·.1) := by rw [List.map_fst_zip same.le]
      have images := (decoded_perm crates batch).map (batch, ·)
      rw [← firsts, List.map_append, List.map_map] at images
      rw [List.map_append, List.map_map, List.map_map]
      exact images
    · intro row member
      rcases List.mem_append.mp member with computed | undecoded
      · obtain ⟨⟨⟨image, wdImage, clipImage, dinoImage⟩, tags, clip, dino⟩, paired, rfl⟩ := List.mem_map.mp computed
        obtain ⟨tagsOf, clipOf, dinoOf⟩ := (List.forall₂_iff_zip.mp related).2 paired
        have converted : convertImage crates image = some (wdImage, clipImage, dinoImage) :=
          decoded_convert (List.of_mem_zip paired).1
        constructor
        · rintro _ _ _ ⟨⟩
          exact ⟨wdImage, clipImage, dinoImage, converted, tagsOf, clipOf, dinoOf⟩
        · refine iff_of_false (Option.some_ne_none _) (not_or.mpr ⟨?_, succeeds⟩)
          rw [converted]
          exact Option.some_ne_none _
      · obtain ⟨image, present, rfl⟩ := List.mem_map.mp undecoded
        exact .idle (.inl (unconverted image present))

/-! ## A write -/

/-- What of the rows is written as completed. -/
def made (rows : List (Row Tensor Score)) : List (Image × Inferred Tensor Score) :=
  rows.filterMap fun row => row.outcome.map (row.image, ·)

theorem push_write (half : Tensor → Half) (rows : List (Row Tensor Score)) (write : Write Score Half) :
    (rows.map Row.sent).foldl (Write.push half) write =
      { wdIds := write.wdIds ++ (made rows).flatMap fun entry => entry.2.1.map fun _ => entry.1.id
        tagNames := write.tagNames ++ (made rows).flatMap fun entry => entry.2.1.map (·.1.name)
        scores := write.scores ++ (made rows).flatMap fun entry => entry.2.1.map (·.2)
        completedIds := write.completedIds ++ (made rows).map (·.1.id)
        clipEmbeddings := write.clipEmbeddings ++ (made rows).map (half ·.2.2.1)
        dinoEmbeddings := write.dinoEmbeddings ++ (made rows).map (half ·.2.2.2)
        failedIds := write.failedIds ++ (rows.filter (·.outcome.isNone)).map (·.image.id) } := by
  induction rows generalizing write with
  | nil => simp [made]
  | cons row rest ih =>
    rw [List.map_cons, List.foldl_cons, ih]
    obtain ⟨batch, image, outcome⟩ := row
    cases outcome with
    | none => simp [Row.sent, Write.push, made]
    | some outcome => simp [Row.sent, Write.push, made]

theorem made_perm (rows : List (Row Tensor Score)) :
    ((made rows).map (·.1.id) ++ (rows.filter (·.outcome.isNone)).map (·.image.id)).Perm (rows.map (·.image.id)) := by
  have done : (made rows).map (·.1.id) = (rows.filter (·.outcome.isSome)).map (·.image.id) := by
    rw [made, List.map_filterMap, ← List.filterMap_eq_filter, List.map_filterMap]
    congr 1
    funext row
    cases outcome : row.outcome <;> simp [Option.guard, outcome]
  have undone : rows.filter (·.outcome.isNone) = rows.filter fun row => !row.outcome.isSome := by
    congr 1
    funext row
    cases row.outcome <;> rfl
  rw [done, undone, ← List.map_append]
  exact (List.filter_append_perm _ _).map _

def Row.store (half : Tensor → Half) (row : Row Tensor Score) (stored : Stored Half) : Stored Half :=
  match row.outcome with
  | some (_, clip, dino) => ⟨.completed, some (half clip), some (half dino)⟩
  | none => { stored with status := .pending }

/-- Where no image is there twice, each row alone decides what becomes of its image. -/
theorem write_stores {half : Tensor → Half} {rows : List (Row Tensor Score)} {write : Write Score Half}
    (completed : write.completedIds = (made rows).map (·.1.id))
    (clips : write.clipEmbeddings = (made rows).map (half ·.2.2.1))
    (dinos : write.dinoEmbeddings = (made rows).map (half ·.2.2.2))
    (failed : write.failedIds = (rows.filter (·.outcome.isNone)).map (·.image.id))
    (once : (rows.map (·.image.id)).Nodup) {before after : Int → Option (Stored Half)} (completes : write.Completes before after)
    {row : Row Tensor Score} (member : row ∈ rows) :
    write.reset after row.image.id = (before row.image.id).map (row.store half) := by
  obtain ⟨doneOnce, _, apart⟩ := List.nodup_append'.mp ((made_perm rows).nodup_iff.mpr once)
  rw [← completed, ← failed] at apart
  obtain ⟨batch, image, outcome⟩ := row
  cases outcome with
  | none =>
    have left : (⟨batch, image, none⟩ : Row Tensor Score) ∈ rows.filter (·.outcome.isNone) := List.mem_filter.mpr ⟨member, rfl⟩
    have undone : image.id ∈ write.failedIds := by
      rw [failed]
      exact List.mem_map_of_mem (f := fun row => row.image.id) left
    have kept : after image.id = before image.id := by
      rcases completes image.id with ⟨_, kept⟩ | ⟨i, found, _⟩
      · exact kept
      · exact absurd undone (apart (List.mem_of_getElem? found))
    rw [Write.reset, if_pos undone, kept]
    rfl
  | some inferred =>
    have entry : (image, inferred) ∈ made rows := List.mem_filterMap.mpr ⟨_, member, rfl⟩
    have done : image.id ∈ write.completedIds := by
      rw [completed]
      exact List.mem_map_of_mem (f := fun entry => entry.1.id) entry
    rcases completes image.id with ⟨undone, _⟩ | ⟨i, found, set⟩
    · exact absurd done undone
    rw [Write.reset, if_neg (apart done), set]
    rw [completed, List.getElem?_map] at found
    obtain ⟨other, at_, same⟩ := Option.map_eq_some_iff.mp found
    cases List.inj_on_of_nodup_map doneOnce (List.mem_of_getElem? at_) entry same
    rw [clips, dinos, List.getElem?_map, List.getElem?_map, at_]
    rfl

/-- Writes to the images, one after another. -/
inductive Writes : List (Write Score Half) → (Int → Option (Stored Half)) → (Int → Option (Stored Half)) → Prop where
  | done {images : Int → Option (Stored Half)} : Writes [] images images
  | next {write : Write Score Half} {rest : List (Write Score Half)} {before between after : Int → Option (Stored Half)}
      (completes : write.Completes before between) (later : Writes rest (write.reset between) after) :
      Writes (write :: rest) before after

theorem Write.reset_of_not_completed {write : Write Score Half} {id : Int} (undone : id ∉ write.completedIds)
    {before after : Int → Option (Stored Half)} (completes : write.Completes before after) :
    write.reset after id = if id ∈ write.failedIds then (before id).map ({ · with status := .pending }) else before id := by
  have kept : after id = before id := by
    rcases completes id with ⟨_, kept⟩ | ⟨i, found, _⟩
    · exact kept
    · exact absurd (List.mem_of_getElem? found) undone
  rw [Write.reset, kept]

/-- What no write completes is left as it was, but for being pending after a failure. -/
theorem Writes.undone {writes : List (Write Score Half)} {before after : Int → Option (Stored Half)}
    (written : Writes writes before after) {id : Int} (undone : ∀ write ∈ writes, id ∉ write.completedIds) :
    after id = if ∃ write ∈ writes, id ∈ write.failedIds then (before id).map ({ · with status := .pending })
      else before id := by
  induction written with
  | done => simp
  | @next write rest before between after completes later ih =>
    obtain ⟨here, others⟩ := List.forall_mem_cons.mp undone
    rw [ih others, Write.reset_of_not_completed here completes]
    simp only [List.exists_mem_cons_iff]
    by_cases first : id ∈ write.failedIds
    · have either : id ∈ write.failedIds ∨ ∃ later ∈ rest, id ∈ later.failedIds := .inl first
      rw [if_pos first, if_pos either]
      -- a second reset changes nothing
      split
      · rw [Option.map_map]
        rfl
      · rfl
    · rw [if_neg first]
      exact if_congr (or_iff_right first).symm rfl rfl

/-- The batches of a write, taken together. -/
theorem rows_of_group {group : List (Batch Tensor Score)} (aligned : ∀ batch ∈ group, batch.calls.Aligned models) :
    ∃ rows : List (Row Tensor Score), rows.map Row.sent = group.flatMap (·.res crates) ∧
      (rows.map fun row => (row.batch, row.image)).Perm (group.flatMap fun batch => batch.images.map (batch, ·)) ∧
      ∀ row ∈ rows, row.Sound crates models := by
  induction group with
  | nil => exact ⟨[], rfl, .nil, fun _ member => absurd member List.not_mem_nil⟩
  | cons batch rest ih =>
    obtain ⟨here, alignedRest⟩ := List.forall_mem_cons.mp aligned
    obtain ⟨rows, sent, images, sound⟩ := @rows_of_batch _ _ _ _ crates _ _ here
    obtain ⟨more, sentMore, imagesMore, soundMore⟩ := ih alignedRest
    refine ⟨rows ++ more, ?_, ?_, List.forall_mem_append.mpr ⟨sound, soundMore⟩⟩
    · rw [List.map_append, sent, sentMore, List.flatMap_cons]
    · rw [List.map_append, List.flatMap_cons]
      exact images.append imagesMore

/-! ## A run -/

def aligned (models : Models Tensor Score) : Guard (State Tensor Score) (Input Tensor Score) Unit := fun _ _ input =>
  ∀ ready calls, input = .infer ready calls → calls.Aligned models

def Input.arrival : Input Tensor Score → List Image
  | .arrive image => [image]
  | .infer .. | .record _ => []

def arrived (past : List (Event (State Tensor Score) (Input Tensor Score) Unit)) : List Image :=
  past.reverse.flatMap (·.input.arrival)

def State.batches (s : State Tensor Score) : List (Batch Tensor Score) := s.written.flatten ++ s.inferred

/-- What a stage takes off a queue it leaves to the next. -/
structure Kept (models : Models Tensor Score) (images : List Image) (s : State Tensor Score) : Prop where
  conserved : images = s.batches.flatMap (·.images) ++ s.decoded
  aligned : ∀ batch ∈ s.batches, batch.calls.Aligned models

theorem Kept.step {batchSize : Nat} {images : List Image} {s : State Tensor Score} {input : Input Tensor Score}
    (kept : Kept models images s) (allowed : ∀ ready calls, input = .infer ready calls → calls.Aligned models) :
    Kept models (images ++ input.arrival) (step batchSize s input) := by
  cases input with
  | arrive image =>
    refine ⟨?_, kept.aligned⟩
    rw [kept.conserved, List.append_assoc]
    rfl
  | infer ready calls =>
    rw [Input.arrival, List.append_nil, Pipeline.step]
    split
    · exact kept
    · have batches : State.batches { s with
          decoded := s.decoded.drop (1 + min ready (batchSize - 1))
          inferred := s.inferred ++ [⟨s.decoded.take (1 + min ready (batchSize - 1)), calls⟩] } =
          s.batches ++ [⟨s.decoded.take (1 + min ready (batchSize - 1)), calls⟩] := by
        rw [State.batches, State.batches, List.append_assoc]
      constructor
      · rw [batches, kept.conserved, List.flatMap_append, List.append_assoc]
        simp
      · rw [batches]
        refine List.forall_mem_append.mpr ⟨kept.aligned, ?_⟩
        intro batch member
        rw [List.mem_singleton.mp member]
        exact allowed ready calls rfl
  | record ready =>
    rw [Input.arrival, List.append_nil, Pipeline.step]
    split
    · exact kept
    · have batches : State.batches { s with
          inferred := s.inferred.drop (1 + min ready (coalesce - 1))
          written := s.written ++ [s.inferred.take (1 + min ready (coalesce - 1))] } = s.batches := by
        rw [State.batches, State.batches, List.flatten_append, List.append_assoc, List.flatten_singleton,
          List.take_append_drop]
      exact ⟨by rw [batches, kept.conserved], by rw [batches]; exact kept.aligned⟩

theorem Kept.run {batchSize : Nat} {past : List (Event (State Tensor Score) (Input Tensor Score) Unit)}
    {s : State Tensor Score} (run : (machine batchSize).Run (Pipeline.aligned models) (machine batchSize).initial past s) :
    Kept models (arrived past) s := by
  apply run.invariant fun past s => Kept models (arrived past) s
  · exact ⟨rfl, fun _ member => absurd member List.not_mem_nil⟩
  · intro past s input _ allowed kept
    have next := @Kept.step _ _ _ batchSize _ _ _ kept allowed
    rw [arrived, List.reverse_cons, List.flatMap_append, List.flatMap_singleton]
    exact next

section Example

def sampleCrates : Crates Nat Nat Nat where
  read name := if name = "a.webp" then some 1 else if name = "c.webp" then some 3 else none
  wdConvert buf := some (buf + 10)
  clipConvert buf := some (buf + 20)
  dinoConvert buf := some (buf + 30)
  half := id

def sampleTags (image : Nat) : List (Tag × Nat) := [(⟨.general, "tag"⟩, image)]

def sampleCalls : Calls Nat Nat where
  inferTag images := some (images.map sampleTags)
  clipVision images := some (images.map (· + 100))
  dinoVision images := some (images.map (· + 200))

def sampleModels : Models Nat Nat := ⟨fun image tags => sampleTags image = tags, (· + 100 = ·), (· + 200 = ·)⟩

theorem sampleCalls_aligned : sampleCalls.Aligned sampleModels := by
  have mapped {α : Type} (f : Nat → α) (ins : List Nat) (outs : List α) (answered : some (ins.map f) = some outs) :
      List.Forall₂ (fun input out => f input = out) ins outs := by
    cases answered
    exact List.forall₂_map_right_iff.mpr (List.forall₂_same.mpr fun _ _ => rfl)
  exact ⟨mapped _, mapped _, mapped _⟩

/-- Claimed and not embedded yet. -/
def claimed : Int → Option (Stored Nat) := fun id => if 1 ≤ id ∧ id ≤ 4 then some ⟨.processing, none, none⟩ else none

end Example

end LetsEmbed.Pipeline
