import LetsEmbed.Convert
import Mathlib.Data.Set.Card

/-! What a conversion leaves in the store. A path gives its object the name of its
stem, and two paths may have one stem: then the second image is written over the
first, whose original is deleted all the same. -/

namespace LetsEmbed.Convert
open Systems Text

/-- A stem is followed by one of the extensions, or is the whole path where the
path ends in none of them. -/
def Spells (stem path : String) : Prop :=
  (∃ ext ∈ extensions, path = stem ++ "." ++ ext) ∨ path = stem ∧ ∀ ext ∈ extensions, ∀ front, path ≠ front ++ "." ++ ext

theorem destination_fst (path : String) : (destination path).1 = imageObject (destination path).2 := by
  rw [destination]
  split
  · split <;> rfl
  · rfl

theorem rsplitOnce_dot {path front ext : String} (listed : ext ∈ extensions) :
    rsplitOnce '.' path = some (front, ext) ↔ path = front ++ "." ++ ext := by
  have plain : ∀ ext ∈ extensions, '.' ∉ ext.toList := by decide
  rw [rsplitOnce_eq_some, and_iff_left (plain ext listed), ← String.toList_inj, String.toList_append, String.toList_append,
    List.append_assoc]
  rfl

theorem spells_iff {stem path : String} : Spells stem path ↔ (destination path).2 = stem := by
  by_cases ends : ∃ ext ∈ extensions, ∃ front, path = front ++ "." ++ ext
  · obtain ⟨ext, listed, front, spelled⟩ := ends
    have split : rsplitOnce '.' path = some (front, ext) := (rsplitOnce_dot listed).mpr spelled
    have key : (destination path).2 = front := by
      rw [destination, split]
      simp only [listed, if_true]
    rw [key]
    constructor
    · rintro (⟨other, listed', spelled'⟩ | ⟨_, plain⟩)
      · cases split.symm.trans ((rsplitOnce_dot listed').mpr spelled')
        rfl
      · exact absurd spelled (plain ext listed front)
    · rintro rfl
      exact .inl ⟨ext, listed, spelled⟩
  · have plain : ∀ ext ∈ extensions, ∀ front, path ≠ front ++ "." ++ ext := fun ext listed front spelled =>
      ends ⟨ext, listed, front, spelled⟩
    have key : (destination path).2 = path := by
      rw [destination]
      split
      next pre ext split =>
        have unlisted : ext ∉ extensions := fun listed => plain ext listed pre ((rsplitOnce_dot listed).mp split)
        rw [if_neg unlisted]
      · rfl
    rw [key]
    constructor
    · rintro (⟨ext, listed, spelled⟩ | ⟨same, _⟩)
      · exact absurd spelled (plain ext listed stem)
      · exact same
    · exact fun same => .inr ⟨same, plain⟩

theorem endsWith_imageObject (name : String) : endsWith (imageObject name) ".webp" = true := by
  rw [endsWith, imageObject, String.toList_append, List.isSuffixOf_iff_suffix]
  exact List.suffix_append ..

/-- No image that is converted has the name of a converted one. -/
theorem selected_ne {mimeTypes : String → List String} {entries : List Entry} {path : String}
    (chosen : path ∈ selected mimeTypes entries) (other : String) : path ≠ (destination other).1 := by
  intro same
  obtain ⟨entry, kept, rfl⟩ := List.mem_map.mp chosen
  have selects := (List.mem_filter.mp kept).2
  rw [destination_fst] at same
  simp [Convert.selects, same, endsWith_imageObject] at selects

section Walk
variable {Place ι : Type} [DecidableEq Place] {setup : Setup Place} {paths : List String} {s : State Place ι}
  {objects : Objects Place ι} {place other : Place} {name key : String} {content : Option ι}

def images (objects : Objects Place ι) : Set ι := {image | ∃ place name, objects place name = some image}

@[simp] theorem put_self : objects.put place name content place name = content := if_pos ⟨rfl, rfl⟩

theorem put_of_ne (apart : other = place → key ≠ name) : objects.put place name content other key = objects other key :=
  if_neg fun same => apart same.1 same.2

theorem images_put_of_none (free : objects place name = none) : images objects ⊆ images (objects.put place name content) := by
  rintro image ⟨holder, at_, found⟩
  refine ⟨holder, at_, (put_of_ne fun same apart => ?_).trans found⟩
  rw [same, apart, free] at found
  cases found

/-- Nothing is lost with an object of which there is a copy. -/
theorem images_put_of_copy (copied : objects other key = objects place name) (apart : key ≠ name) :
    images objects ⊆ images (objects.put place name none) := by
  rintro image ⟨holder, at_, found⟩
  by_cases gone : holder = place ∧ at_ = name
  · rw [gone.1, gone.2] at found
    exact ⟨other, key, (put_of_ne fun _ => apart).trans (copied.trans found)⟩
  · exact ⟨holder, at_, (put_of_ne fun same apart => gone ⟨same, apart⟩).trans found⟩

/-- Where an image stands on its way: what it was read from is there until what was
written stands in its place. -/
def Sound (setup : Setup Place) (objects : Objects Place ι) (path : String) : Phase ι → Prop
  | .waiting => objects setup.dst (destination path).1 = none
  | .loaded image => objects setup.src path = some image ∧ objects setup.dst (destination path).1 = none
  | .written => objects setup.dst (destination path).1 = objects setup.src path
  | .deleted | .ended => True

structure Intact (setup : Setup Place) (paths : List String) (s : State Place ι) : Prop where
  sound : ∀ path ∈ paths, Sound setup s.objects path (s.phase path)
  outside : ∀ path ∉ paths, s.phase path = .waiting
  metas : ∀ entry ∈ s.metas, entry.1 = imageObject entry.2

omit [DecidableEq Place] in
/-- An image hangs on two objects only. -/
theorem Sound.frame {late : Objects Place ι} {path : String} {phase : Phase ι} (sound : Sound setup objects path phase)
    (src : late setup.src path = objects setup.src path)
    (dst : late setup.dst (destination path).1 = objects setup.dst (destination path).1) :
    Sound setup late path phase := by
  cases phase with
  | waiting => exact dst.trans sound
  | loaded image => exact ⟨src.trans sound.1, dst.trans sound.2⟩
  | written => exact dst.trans (Eq.trans sound src.symm)
  | deleted => trivial
  | ended => trivial

/-- Paths that share neither an object to be written nor a name with one. -/
structure Apart (paths : List String) : Prop where
  distinct : Set.InjOn (fun path => (destination path).1) {path | path ∈ paths}
  unconverted : ∀ path ∈ paths, ∀ other, path ≠ (destination other).1

inductive Effect (setup : Setup Place) (paths : List String) (s : State Place ι) : State Place ι → Prop
  | idle : Effect setup paths s s
  | loaded {path : String} {image : ι} (member : path ∈ paths) (waiting : s.phase path = .waiting)
      (found : s.objects setup.src path = some image) : Effect setup paths s (s.become path (.loaded image))
  | wrote {path : String} {image : ι} {phase : Phase ι} (held : s.phase path = .loaded image)
      (moved : phase = .written ∨ phase = .ended) : Effect setup paths s
        { s.become path phase with objects := s.objects.put setup.dst (destination path).1 (some image) }
  | deleted {path : String} {phase : Phase ι} (written : s.phase path = .written)
      (moved : phase = .deleted ∨ phase = .ended) : Effect setup paths s
        { s.become path phase with objects := s.objects.put setup.src path none }
  | finished {path : String} (done : s.phase path = .written ∨ s.phase path = .deleted) :
      Effect setup paths s (s.finish path)

theorem step_effect (action : Action) : Effect setup paths s (step setup paths s action) := by
  cases action with
  | read path =>
    rw [step]
    split
    next image waiting found =>
      split
      next member => exact .loaded member waiting found
      · exact .idle
    · exact .idle
  | write path acknowledged =>
    rw [step]
    split
    next image held => exact .wrote held (by cases acknowledged <;> simp)
    · exact .idle
  | delete path acknowledged =>
    rw [step]
    split
    next written =>
      split
      · exact .deleted written (by cases acknowledged <;> simp)
      · exact .idle
    · exact .idle
  | finish path =>
    rw [step]
    split
    next written =>
      split
      · exact .idle
      · exact .finished (.inl written)
    next deleted => exact .finished (.inr deleted)
    · exact .idle

omit [DecidableEq Place] in
theorem Intact.member {path : String} (intact : Intact setup paths s) (begun : s.phase path ≠ .waiting) : path ∈ paths := by
  by_contra outside
  exact begun (intact.outside path outside)

omit [DecidableEq Place] in
/-- A step of one image leaves the others where they stand, wherever their objects
are untouched. -/
theorem Intact.advance {path : String} {phase : Phase ι} {late : Objects Place ι} (intact : Intact setup paths s)
    (member : path ∈ paths) (stands : Sound setup late path phase)
    (untouched : ∀ other ∈ paths, other ≠ path → late setup.src other = s.objects setup.src other ∧
      late setup.dst (destination other).1 = s.objects setup.dst (destination other).1) :
    Intact setup paths { s.become path phase with objects := late } := by
  constructor
  case sound =>
    intro other present
    by_cases same : other = path
    · subst same
      simpa only [State.become, Function.update_self] using stands
    · simp only [State.become, Function.update_of_ne same]
      exact (intact.sound other present).frame (untouched other present same).1 (untouched other present same).2
  case outside =>
    intro other outside
    have different : other ≠ path := fun same => outside (same ▸ member)
    simpa only [State.become, Function.update_of_ne different] using intact.outside other outside
  case metas => exact intact.metas

theorem Intact.step {late : State Place ι} (intact : Intact setup paths s) (apart : Apart paths)
    (effect : Effect setup paths s late) : Intact setup paths late ∧ images s.objects ⊆ images late.objects := by
  cases effect with
  | idle => exact ⟨intact, subset_rfl⟩
  | loaded member waiting found =>
    have free := intact.sound _ member
    rw [waiting] at free
    exact ⟨intact.advance member ⟨found, free⟩ fun _ _ _ => ⟨rfl, rfl⟩, subset_rfl⟩
  | @wrote path image phase held moved =>
    have member : path ∈ paths := intact.member (by rw [held]; simp)
    obtain ⟨source, free⟩ : s.objects setup.src path = some image ∧ s.objects setup.dst (destination path).1 = none := by
      have sound := intact.sound path member
      rwa [held] at sound
    refine ⟨intact.advance member ?_ fun other present different => ⟨?_, ?_⟩, images_put_of_none free⟩
    · rcases moved with rfl | rfl
      · exact put_self.trans ((put_of_ne fun _ => apart.unconverted path member path).trans source).symm
      · trivial
    · exact put_of_ne fun _ => apart.unconverted other present path
    · exact put_of_ne fun _ same => different (apart.distinct present member same)
  | @deleted path phase written moved =>
    have member : path ∈ paths := intact.member (by rw [written]; simp)
    have copied : s.objects setup.dst (destination path).1 = s.objects setup.src path := by
      have sound := intact.sound path member
      rwa [written] at sound
    refine ⟨intact.advance member ?_ fun other present different => ⟨?_, ?_⟩,
      images_put_of_copy copied (apart.unconverted path member path).symm⟩
    · rcases moved with rfl | rfl
      · trivial
      · trivial
    · exact put_of_ne fun _ same => different same
    · exact put_of_ne fun _ same => apart.unconverted path member other same.symm
  | @finished path done =>
    have member : path ∈ paths := intact.member (by rcases done with written | deleted <;> simp [*])
    have stays : Intact setup paths (s.become path .ended) := intact.advance member trivial fun _ _ _ => ⟨rfl, rfl⟩
    refine ⟨⟨stays.sound, stays.outside, ?_⟩, subset_rfl⟩
    intro entry recorded
    rcases List.mem_cons.mp recorded with rfl | earlier
    · exact destination_fst path
    · exact intact.metas entry earlier

theorem Intact.run {past : List (Event (State Place ι) Action Unit)} (apart : Apart paths)
    (free : ∀ path ∈ paths, objects setup.dst (destination path).1 = none)
    (run : (machine setup paths objects).Run (fun _ _ _ => True) (machine setup paths objects).initial past s) :
    Intact setup paths s := by
  apply run.invariant fun _ s => Intact setup paths s
  · exact ⟨free, fun _ _ => rfl, fun _ recorded => absurd recorded List.not_mem_nil⟩
  · intro past s action _ _ intact
    exact (intact.step apart (step_effect action)).1

/-- Every image has an object of its own to be written to, in which it survives its
original, just where no two of them share a stem and none has the stem of an object
that is there already. -/
theorem lossless_iff (mimeTypes : String → List String) (entries : List Entry) (setup : Setup Place)
    (objects : Objects Place ι) :
    let paths := selected mimeTypes entries
    (Set.InjOn (fun path => (destination path).1) {path | path ∈ paths} ∧
      (∀ path ∈ paths, objects setup.dst (destination path).1 = none) ∧
      ∀ past s, (machine setup paths objects).Run (fun _ _ _ => True) (machine setup paths objects).initial past s →
        (∀ action, (images s.objects).encard ≤ (images (step setup paths s action).objects).encard) ∧
        ∀ entry ∈ s.metas, entry.1 = imageObject entry.2) ↔
    (∀ path ∈ paths, ∀ other ∈ paths, ∀ stem, Spells stem path → Spells stem other → path = other) ∧
      ∀ path ∈ paths, ∀ stem, Spells stem path → objects setup.dst (stem ++ ".webp") = none := by
  intro paths
  have named (path other : String) : (destination path).1 = (destination other).1 ↔ (destination path).2 = (destination other).2 := by
    rw [destination_fst, destination_fst, imageObject, imageObject, String.append_left_inj]
  constructor
  · rintro ⟨distinct, free, _⟩
    refine ⟨fun path member other member' stem spelled spelled' => ?_, fun path member stem spelled => ?_⟩
    · apply distinct member member'
      exact (named path other).mpr ((spells_iff.mp spelled).trans (spells_iff.mp spelled').symm)
    · rw [← spells_iff.mp spelled]
      exact (congrArg _ (destination_fst path)).symm.trans (free path member)
  · rintro ⟨stems, absent⟩
    have distinct : Set.InjOn (fun path => (destination path).1) {path | path ∈ paths} := by
      intro path member other member' same
      exact stems path member other member' _ (spells_iff.mpr rfl) (spells_iff.mpr ((named path other).mp same).symm)
    have free : ∀ path ∈ paths, objects setup.dst (destination path).1 = none := by
      intro path member
      rw [destination_fst]
      exact absent path member _ (spells_iff.mpr rfl)
    have apart : Apart paths := ⟨distinct, fun path member other => selected_ne member other⟩
    refine ⟨distinct, free, fun past s run => ?_⟩
    have intact : Intact setup paths s := .run apart free run
    exact ⟨fun action => Set.encard_le_encard (intact.step apart (step_effect action)).2, intact.metas⟩

end Walk

/-- Of two images with one stem the first is gone with its original. -/
theorem image_overwritten :
    let entries : List Entry := [⟨"a.jpg", true⟩, ⟨"a.png", true⟩]
    let paths := selected (fun _ => ["image"]) entries
    let setup : Setup Unit := ⟨(), (), true⟩
    let objects : Objects Unit Nat := fun _ name => if name = "a.jpg" then some 0 else if name = "a.png" then some 1 else none
    let m := machine setup paths objects
    let run := m.play ([], m.initial) [.read "a.jpg", .read "a.png", .write "a.jpg" true, .delete "a.jpg" true,
      .write "a.png" true, .delete "a.png" true]
    m.Run (fun _ _ _ => True) m.initial run.1 run.2 ∧ (destination "a.jpg").1 = (destination "a.png").1 ∧
      (images run.2.objects).encard < (images objects).encard := by
  intro entries paths setup objects m run
  refine ⟨Machine.Run.play .start _ (m.permitted_always (fun _ _ _ => trivial) _ _), by decide, ?_⟩
  have final : run.2.objects = (((objects.put () "a.webp" (some 0)).put () "a.jpg" none).put () "a.webp" (some 1)).put ()
      "a.png" none := rfl
  have left : images run.2.objects ⊆ {1} := by
    rintro image ⟨place, name, found⟩
    simp only [final, Objects.put, objects] at found
    grind
  have both : {0, 1} ⊆ images objects := by
    rintro image (rfl | rfl)
    · exact ⟨(), "a.jpg", rfl⟩
    · exact ⟨(), "a.png", rfl⟩
  calc (images run.2.objects).encard ≤ ({1} : Set Nat).encard := Set.encard_le_encard left
    _ < ({0, 1} : Set Nat).encard := by
      rw [Set.encard_singleton, Set.encard_pair Nat.zero_ne_one]
      decide
    _ ≤ (images objects).encard := Set.encard_le_encard both

end LetsEmbed.Convert
