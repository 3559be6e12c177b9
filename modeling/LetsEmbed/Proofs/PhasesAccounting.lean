import Mathlib
import LetsEmbed.Phases

/-! The phases cover the way of an image from its claim to the end of its write: their
counters add up to the permits that are out, but for a task that panicked and has not
been waited for, and for one that outlives its stage. -/

namespace LetsEmbed.Phases
open Systems

/-! ## Counters and trackers -/

theorem Phase.name_injective : Function.Injective Phase.name := by
  intro a b same
  cases a <;> cases b <;> first | rfl | (exact absurd same (by decide))

section Counters
variable {m : Meters} {phase next : Phase} {now : Nat} {trackers : List Tracker}

theorem add_items (amount : Int) (other : Phase) :
    (m.add amount other).items phase.name = m.items phase.name + if other = phase then amount else 0 := by
  by_cases same : other = phase
  · rw [if_pos same, same]
    exact Function.update_self ..
  · rw [if_neg same, add_zero]
    exact Function.update_of_ne (fun named => same (Phase.name_injective named).symm) ..

theorem record_items (stay : Nat) (other : Phase) : (m.record stay other).items = m.items := rfl

/-- How many of these trackers are in a phase. -/
def tally (phase : Phase) (trackers : List Tracker) : Int := trackers.countP (·.phase = phase)

@[simp] theorem tally_nil : tally phase [] = 0 := rfl

theorem tally_cons (tracker : Tracker) :
    tally phase (tracker :: trackers) = tally phase trackers + if tracker.phase = phase then 1 else 0 := by
  by_cases same : tracker.phase = phase <;> simp [tally, same]

theorem tally_append (more : List Tracker) : tally phase (trackers ++ more) = tally phase trackers + tally phase more := by
  simp [tally]

theorem tally_flatMap (parcels : List Parcel) :
    tally phase (parcels.flatMap (·.trackers)) = (parcels.map fun parcel => tally phase parcel.trackers).sum := by
  induction parcels with
  | nil => rfl
  | cons parcel rest ih => rw [List.flatMap_cons, tally_append, ih, List.map_cons, List.sum_cons]

theorem tally_uniform (all : ∀ tracker ∈ trackers, tracker.phase = next) :
    tally phase trackers = if next = phase then (trackers.length : Int) else 0 := by
  induction trackers with
  | nil => simp
  | cons tracker rest ih =>
    obtain ⟨here, later⟩ := List.forall_mem_cons.mp all
    rw [tally_cons, ih later, here]
    split <;> simp

theorem leave_items (tracker : Tracker) (stay : Nat) :
    (tracker.leave m stay).items phase.name + tally phase [tracker] = m.items phase.name := by
  rw [Tracker.leave, add_items, record_items, tally_cons, tally_nil]
  split <;> simp

theorem newAll_spec (count : Nat) : (Tracker.newAll m now next count).1.length = count ∧
    (∀ tracker ∈ (Tracker.newAll m now next count).1, tracker.phase = next) ∧
    (Tracker.newAll m now next count).2.items phase.name =
      m.items phase.name + tally phase (Tracker.newAll m now next count).1 := by
  induction count with
  | zero => simp [Tracker.newAll]
  | succ count ih =>
    obtain ⟨length, phases, items⟩ := ih
    refine ⟨congrArg (· + 1) length, List.forall_mem_cons.mpr ⟨rfl, phases⟩, ?_⟩
    change ((Tracker.newAll m now next count).2.add 1 next).items phase.name = m.items phase.name + tally phase (_ :: _)
    rw [add_items, items, tally_cons, add_assoc]

theorem enterAll_spec : (Tracker.enterAll m now next trackers).1.length = trackers.length ∧
    (∀ tracker ∈ (Tracker.enterAll m now next trackers).1, tracker.phase = next) ∧
    (Tracker.enterAll m now next trackers).2.items phase.name + tally phase trackers =
      m.items phase.name + tally phase (Tracker.enterAll m now next trackers).1 := by
  induction trackers generalizing m with
  | nil => simp [Tracker.enterAll]
  | cons tracker rest ih =>
    obtain ⟨length, phases, items⟩ := @ih (tracker.enter m now next).2
    refine ⟨congrArg (· + 1) length, List.forall_mem_cons.mpr ⟨rfl, phases⟩, ?_⟩
    change (Tracker.enterAll (tracker.enter m now next).2 now next rest).2.items phase.name + tally phase (tracker :: rest) =
      m.items phase.name + tally phase (⟨next, now⟩ :: (Tracker.enterAll (tracker.enter m now next).2 now next rest).1)
    have left := @leave_items m phase tracker (now - tracker.since)
    have entered : (tracker.enter m now next).2.items phase.name =
        (tracker.leave m (now - tracker.since)).items phase.name + if next = phase then 1 else 0 := add_items 1 next
    rw [tally_cons, tally_nil, zero_add] at left
    rw [tally_cons, tally_cons]
    dsimp only
    omega

theorem discardAll_items :
    (Tracker.discardAll m trackers).items phase.name + tally phase trackers = m.items phase.name := by
  induction trackers generalizing m with
  | nil => simp [Tracker.discardAll]
  | cons tracker rest ih =>
    have later := @ih (tracker.discard m)
    have here : (tracker.discard m).items phase.name = m.items phase.name + if tracker.phase = phase then -1 else 0 :=
      add_items (-1) tracker.phase
    change (Tracker.discardAll (tracker.discard m) rest).items phase.name + _ = _
    rw [here] at later
    rw [tally_cons]
    by_cases same : tracker.phase = phase
    · rw [if_pos same] at later ⊢
      omega
    · rw [if_neg same] at later ⊢
      omega

theorem dropAll_items : (Tracker.dropAll m now trackers).items phase.name + tally phase trackers = m.items phase.name := by
  induction trackers generalizing m with
  | nil => simp [Tracker.dropAll]
  | cons tracker rest ih =>
    have later := @ih (tracker.drop m now)
    have here := @leave_items m phase tracker (now - tracker.since)
    change (Tracker.dropAll (tracker.drop m now) now rest).items phase.name + _ = _
    rw [tally_cons, tally_nil, zero_add] at here
    rw [tally_cons]
    unfold Tracker.drop at later ⊢
    omega

end Counters

/-! ## What a stage holds -/

/-- The phase an image is in while it is at a place. -/
def Place.phase : Place → Phase
  | .claiming | .ready .download => .claim
  | .ready .decode => .decodeQueue
  | .running task | .panicked task | .detached task => task.starts
  | .decoded => .inferQueue
  | .inferring => .infer
  | .inferred => .recordQueue
  | .writing => .write

namespace Parcel
variable (parcel : Parcel)

/-- One image by itself, before, in or after a task. -/
def isSingle : Bool :=
  match parcel.place with
  | .ready _ | .running _ | .panicked _ => true
  | _ => false

/-- A task that panicked and has not been waited for yet. -/
def unjoined : Nat :=
  match parcel.place with
  | .panicked _ => 1
  | _ => 0

/-- A task whose stage is gone. -/
def detached : Nat :=
  match parcel.place with
  | .detached _ => 1
  | _ => 0

structure Sound : Prop where
  counted : parcel.trackers.length + parcel.unjoined = parcel.permits + parcel.detached
  images : parcel.place ≠ .claiming → parcel.images.length = parcel.permits + parcel.detached
  phase : ∀ tracker ∈ parcel.trackers, tracker.phase = parcel.place.phase
  single : parcel.isSingle = true → parcel.permits = 1
  freed : ∀ task, parcel.place = .detached task → parcel.permits = 0

end Parcel

namespace State
variable (s : State)

def unjoined : Nat := Bag.total Parcel.unjoined s.parcels

def detached : Nat := Bag.total Parcel.detached s.parcels

/-- The trackers at the places of a phase. -/
def present (phase : Phase) : Nat :=
  Bag.total (fun parcel => if parcel.place.phase = phase then parcel.trackers.length else 0) s.parcels

structure Balanced : Prop where
  counted : ∀ phase : Phase, s.meters.items phase.name = Bag.total (fun parcel => tally phase parcel.trackers) s.parcels
  permits : s.inFlight = Bag.total (·.permits) s.parcels
  sound : ∀ parcel ∈ s.parcels, parcel.Sound

end State

/-! ## Steps -/

section Steps
variable {s : State}

theorem holds_iff {place : Place} {parcels : List Parcel} :
    s.holds place parcels = true ↔ (parcels : Multiset Parcel) ≤ s.parcels ∧ ∀ parcel ∈ parcels, parcel.place = place := by
  simp [State.holds]

/-- What is taken out and put in agrees on trackers and permits. -/
theorem State.Balanced.exchange (balanced : s.Balanced) {taken put : List Parcel} {meters : Meters} {inFlight completed : Nat}
    (there : (taken : Multiset Parcel) ≤ s.parcels) (sound : ∀ parcel ∈ put, parcel.Sound)
    (counted : ∀ phase : Phase, meters.items phase.name + tally phase (taken.flatMap (·.trackers)) =
      s.meters.items phase.name + tally phase (put.flatMap (·.trackers)))
    (permits : inFlight + (taken.map (·.permits)).sum = s.inFlight + (put.map (·.permits)).sum) :
    State.Balanced { s.exchange taken put meters with inFlight := inFlight, completed := completed } where
  counted phase := by
    have moved := @Bag.total_exchange _ _ _ (fun parcel : Parcel => tally phase parcel.trackers) _ _ _ put there
    have now := counted phase
    rw [Bag.total_coe, Bag.total_coe, ← balanced.counted phase, ← tally_flatMap, ← tally_flatMap] at moved
    change meters.items phase.name = Bag.total _ (Bag.exchange s.parcels taken put)
    omega
  permits := by
    have moved := @Bag.total_exchange _ _ _ (fun parcel : Parcel => parcel.permits) _ _ _ put there
    rw [Bag.total_coe, Bag.total_coe, ← balanced.permits] at moved
    change inFlight = Bag.total _ (Bag.exchange s.parcels taken put)
    omega
  sound := Bag.forall_exchange balanced.sound fun parcel member => sound parcel (Multiset.mem_coe.mp member)

section Taken
variable {place : Place} {parcel : Parcel} {parcels : List Parcel} {task : Task}

theorem State.Balanced.of_held (balanced : s.Balanced) (held : s.holds place parcels = true) :
    (parcels : Multiset Parcel) ≤ s.parcels ∧ ∀ parcel ∈ parcels, parcel.Sound ∧ parcel.place = place := by
  obtain ⟨there, here⟩ := holds_iff.mp held
  refine ⟨there, fun parcel member => ⟨?_, here parcel member⟩⟩
  exact balanced.sound parcel (Multiset.mem_of_le there (Multiset.mem_coe.mpr member))

theorem State.Balanced.of_one (balanced : s.Balanced) (held : s.holds place [parcel] = true) :
    ([parcel] : Multiset Parcel) ≤ s.parcels ∧ parcel.Sound ∧ parcel.place = place := by
  obtain ⟨there, all⟩ := balanced.of_held held
  exact ⟨there, all parcel (List.mem_singleton_self _)⟩

theorem State.Balanced.permits_le (balanced : s.Balanced) (there : ([parcel] : Multiset Parcel) ≤ s.parcels) :
    parcel.permits ≤ s.inFlight := by
  have moved := @Bag.total_exchange _ _ _ (fun parcel : Parcel => parcel.permits) _ _ _ 0 there
  rw [Bag.total_coe, List.map_singleton, List.sum_singleton, Bag.total_zero, ← balanced.permits] at moved
  omega

/-- At most places there is a tracker for every permit. -/
theorem Parcel.Sound.paired (sound : parcel.Sound) (unjoined : parcel.unjoined = 0) (attached : parcel.detached = 0) :
    parcel.trackers.length = parcel.permits := by
  have counted := sound.counted
  omega

theorem balanced_acquire (balanced : s.Balanced) (permits : Nat) : (s.acquire permits).Balanced := by
  have spec (phase : Phase) := @newAll_spec s.meters phase .claim s.clock permits
  obtain ⟨length, phases, _⟩ := spec .claim
  apply balanced.exchange (Multiset.zero_le _)
  · intro parcel member
    rw [List.mem_singleton.mp member]
    exact ⟨length, fun elsewhere => (elsewhere rfl).elim, phases, by simp [Parcel.isSingle], by simp⟩
  · intro phase
    rw [List.flatMap_nil, tally_nil, add_zero, List.flatMap_singleton]
    exact (spec phase).2.2
  · simp

theorem balanced_lose (balanced : s.Balanced) (there : ([parcel] : Multiset Parcel) ≤ s.parcels) :
    (s.lose parcel).Balanced := by
  have enough := balanced.permits_le there
  apply balanced.exchange there
  · intro other member
    cases member
  · intro phase
    rw [List.flatMap_singleton, List.flatMap_nil, tally_nil, add_zero]
    exact dropAll_items
  · rw [List.map_singleton, List.sum_singleton, List.map_nil, List.sum_nil]
    omega

theorem flatMap_zip {records : List Nat} {trackers : List Tracker} (fits : records.length ≤ trackers.length) :
    ((records.zip trackers).flatMap fun found => [found.2]) = trackers.take records.length := by
  induction records generalizing trackers with
  | nil => rfl
  | cons id rest ih =>
    cases trackers with
    | nil => cases fits
    | cons tracker others =>
      rw [List.zip_cons_cons, List.flatMap_cons, ih (Nat.le_of_succ_le_succ fits)]
      rfl

theorem balanced_claim (balanced : s.Balanced) (held : s.holds .claiming [parcel] = true) (records : List Nat) :
    (s.claim parcel records).Balanced := by
  obtain ⟨there, sound, place⟩ := balanced.of_one held
  rw [State.claim]
  split
  next fits =>
    have paired : parcel.trackers.length = parcel.permits := by
      apply sound.paired <;> simp [Parcel.unjoined, Parcel.detached, place]
    have enough := balanced.permits_le there
    apply balanced.exchange there
    · intro image member
      obtain ⟨found, zipped, rfl⟩ := List.mem_map.mp member
      have mine := (List.of_mem_zip zipped).2
      refine ⟨rfl, fun _ => rfl, ?_, by simp, by simp⟩
      intro tracker single
      rw [List.mem_singleton.mp single, sound.phase _ mine, place]
      rfl
    · intro phase
      have discarded := @discardAll_items s.meters phase (parcel.trackers.drop records.length)
      have halves := @tally_append phase (parcel.trackers.take records.length) (parcel.trackers.drop records.length)
      rw [List.take_append_drop] at halves
      rw [List.flatMap_singleton, List.flatMap_map, flatMap_zip fits]
      omega
    · have ones : (((records.zip parcel.trackers).map fun found =>
          (⟨.ready .download, [found.1], 1, [found.2]⟩ : Parcel)).map (·.permits)).sum = records.length := by
        rw [List.map_map]
        change ((records.zip parcel.trackers).map fun _ => 1).sum = records.length
        simp [fits]
      rw [ones, List.map_singleton, List.sum_singleton]
      omega
  next short => exact balanced_lose balanced there

/-- Where images only wait or are worked on together. -/
theorem balanced_merge (balanced : s.Balanced) {target : Place} {next : Phase}
    (there : (parcels : Multiset Parcel) ≤ s.parcels) (sound : ∀ parcel ∈ parcels, parcel.Sound ∧ parcel.place = place)
    (known : place ≠ .claiming) (paired : ∀ parcel ∈ parcels, parcel.unjoined = 0 ∧ parcel.detached = 0)
    (phase : target.phase = next) (free : ∀ permits trackers images,
      (⟨target, images, permits, trackers⟩ : Parcel).unjoined = 0 ∧ (⟨target, images, permits, trackers⟩ : Parcel).detached = 0)
    (single : ∀ permits trackers images, (⟨target, images, permits, trackers⟩ : Parcel).isSingle = true →
      (parcels.map (·.permits)).sum = 1) : (s.merge parcels target next).Balanced := by
  have spec (phase : Phase) := @enterAll_spec s.meters phase next s.clock (parcels.flatMap (·.trackers))
  have lengths : (parcels.flatMap (·.trackers)).length = (parcels.map (·.permits)).sum ∧
      (parcels.flatMap (·.images)).length = (parcels.map (·.permits)).sum := by
    rw [List.length_flatMap, List.length_flatMap]
    constructor
    · congr 1
      apply List.map_congr_left
      intro parcel member
      exact (sound parcel member).1.paired (paired parcel member).1 (paired parcel member).2
    · congr 1
      apply List.map_congr_left
      intro parcel member
      obtain ⟨whole, here⟩ := sound parcel member
      have images := whole.images (here ▸ known)
      rwa [(paired parcel member).2, add_zero] at images
  apply balanced.exchange there
  · intro parcel member
    rw [List.mem_singleton.mp member]
    obtain ⟨unjoined, detached⟩ := free (parcels.map (·.permits)).sum
      (Tracker.enterAll s.meters s.clock next (parcels.flatMap (·.trackers))).1 (parcels.flatMap (·.images))
    refine ⟨?_, fun _ => ?_, ?_, single _ _ _, fun task gone => ?_⟩
    · rw [unjoined, detached]
      exact (spec next).1.trans lengths.1
    · rw [detached]
      exact lengths.2
    · intro tracker entered
      exact ((spec next).2.1 tracker entered).trans phase.symm
    · simp [Parcel.detached, show target = .detached task from gone] at detached
  · intro phase
    rw [List.flatMap_singleton]
    exact (spec phase).2.2
  · simp

theorem balanced_panic (balanced : s.Balanced) (held : s.holds (.running task) [parcel] = true) :
    (s.panic task parcel).Balanced := by
  obtain ⟨there, sound, place⟩ := balanced.of_one held
  have single := sound.single (by simp [Parcel.isSingle, place])
  have images := sound.images (by simp [place])
  apply balanced.exchange there
  · intro other member
    rw [List.mem_singleton.mp member]
    refine ⟨?_, fun _ => ?_, by simp, fun _ => single, by simp⟩
    · exact single.symm
    · simpa [Parcel.detached, place] using images
  · intro phase
    rw [List.flatMap_singleton, List.flatMap_singleton, tally_nil, add_zero]
    exact dropAll_items
  · simp

theorem balanced_join (balanced : s.Balanced) (held : s.holds (.panicked task) [parcel] = true) :
    (s.join task parcel).Balanced := by
  obtain ⟨there, sound, place⟩ := balanced.of_one held
  have single := sound.single (by simp [Parcel.isSingle, place])
  have images := sound.images (by simp [place])
  have empty : parcel.trackers = [] := by
    have counted := sound.counted
    simp only [Parcel.unjoined, Parcel.detached, place, single] at counted
    exact List.eq_nil_of_length_eq_zero (by omega)
  apply balanced.exchange there
  · intro other member
    rw [List.mem_singleton.mp member]
    refine ⟨?_, fun _ => ?_, ?_, fun _ => single, ?_⟩
    · cases task <;> simp [Parcel.unjoined, Parcel.detached, Task.after, single]
    · cases task <;> simpa [Parcel.detached, Task.after, place] using images
    · intro tracker only
      rw [List.mem_singleton.mp only]
      cases task <;> rfl
    · cases task <;> simp [Task.after]
  · intro phase
    rw [List.flatMap_singleton, List.flatMap_singleton, empty, tally_nil, add_zero, tally_cons, tally_nil, zero_add]
    exact add_items 1 task.ends
  · simp

theorem balanced_detach (balanced : s.Balanced) (held : s.holds (.running task) [parcel] = true) :
    (s.detach task parcel).Balanced := by
  obtain ⟨there, sound, place⟩ := balanced.of_one held
  have single := sound.single (by simp [Parcel.isSingle, place])
  have images := sound.images (by simp [place])
  have counted := sound.counted
  have enough := balanced.permits_le there
  simp only [Parcel.unjoined, Parcel.detached, place, single, add_zero] at counted images
  apply balanced.exchange there
  · intro other member
    rw [List.mem_singleton.mp member]
    refine ⟨?_, fun _ => ?_, ?_, by simp [Parcel.isSingle], by simp⟩
    · simp [Parcel.unjoined, Parcel.detached, counted]
    · simp [Parcel.detached, images]
    · intro tracker mine
      rw [sound.phase tracker mine, place]
      rfl
  · intro phase
    rfl
  · simp
    omega

theorem balanced_expire (balanced : s.Balanced) (held : s.holds (.detached task) [parcel] = true) :
    (s.expire task parcel).Balanced := by
  obtain ⟨there, sound, place⟩ := balanced.of_one held
  apply balanced.exchange there
  · intro other member
    cases member
  · intro phase
    have entered := (@enterAll_spec s.meters phase task.ends s.clock parcel.trackers).2.2
    have dropped := @dropAll_items (Tracker.enterAll s.meters s.clock task.ends parcel.trackers).2 phase s.clock
      (Tracker.enterAll s.meters s.clock task.ends parcel.trackers).1
    rw [List.flatMap_singleton, List.flatMap_nil, tally_nil, add_zero]
    change (Tracker.dropAll _ s.clock _).items phase.name + _ = _
    omega
  · simp [sound.freed task place]

end Taken

theorem balanced_step (balanced : s.Balanced) (input : Input) : (step s input).Balanced := by
  -- a merge of what waits at, or leaves, a place where every image has its tracker
  have merged {place target : Place} {next : Phase} {parcels : List Parcel} (held : s.holds place parcels = true)
      (known : place ≠ .claiming) (plain : ∀ task, place ≠ .panicked task ∧ place ≠ .detached task)
      (phase : target.phase = next) (plainly : ∀ task, target ≠ .panicked task ∧ target ≠ .detached task)
      (single : ∀ permits trackers images, (⟨target, images, permits, trackers⟩ : Parcel).isSingle = true →
        (parcels.map (·.permits)).sum = 1) : (s.merge parcels target next).Balanced := by
    obtain ⟨there, sound⟩ := balanced.of_held held
    apply balanced_merge balanced there sound known
    · intro parcel member
      have here := (sound parcel member).2
      cases place with
      | panicked task => exact ((plain task).1 rfl).elim
      | detached task => exact ((plain task).2 rfl).elim
      | _ => simp [Parcel.unjoined, Parcel.detached, here]
    · exact phase
    · intro permits trackers images
      cases target with
      | panicked task => exact ((plainly task).1 rfl).elim
      | detached task => exact ((plainly task).2 rfl).elim
      | _ => exact ⟨rfl, rfl⟩
    · exact single
  cases input with
  | tick elapsed => exact ⟨balanced.counted, balanced.permits, balanced.sound⟩
  | acquire permits => exact balanced_acquire balanced permits
  | claim parcel records =>
    rw [step]
    split
    next held => exact balanced_claim balanced held records
    next => exact balanced
  | start task parcel =>
    rw [step]
    split
    next held =>
      obtain ⟨_, sound, place⟩ := balanced.of_one held
      have single := sound.single (by simp [Parcel.isSingle, place])
      exact merged held (by simp) (by simp) rfl (by simp) (by simp [single])
    next => exact balanced
  | finish task parcel =>
    rw [step]
    split
    next held =>
      obtain ⟨_, sound, place⟩ := balanced.of_one held
      have single := sound.single (by simp [Parcel.isSingle, place])
      cases task <;> exact merged held (by simp) (by simp) rfl (by simp [Task.after]) (by simp [single])
    next => exact balanced
  | panic task parcel =>
    rw [step]
    split
    next held => exact balanced_panic balanced held
    next => exact balanced
  | join task parcel =>
    rw [step]
    split
    next held => exact balanced_join balanced held
    next => exact balanced
  | infer batch =>
    rw [step]
    split
    next held => exact merged (Bool.and_eq_true_iff.mp held).2 (by simp) (by simp) rfl (by simp) (by simp [Parcel.isSingle])
    next => exact balanced
  | inferred parcel =>
    rw [step]
    split
    next held => exact merged held (by simp) (by simp) rfl (by simp) (by simp [Parcel.isSingle])
    next => exact balanced
  | record batches =>
    rw [step]
    split
    next held => exact merged (Bool.and_eq_true_iff.mp held).2 (by simp) (by simp) rfl (by simp) (by simp [Parcel.isSingle])
    next => exact balanced
  | written parcel completed =>
    rw [step]
    split
    next held =>
      have lost := balanced_lose balanced (balanced.of_one (Bool.and_eq_true_iff.mp held).1).1
      exact ⟨lost.counted, lost.permits, lost.sound⟩
    next => exact balanced
  | lose parcel =>
    rw [step]
    split
    next held => exact balanced_lose balanced (balanced.of_one (Bool.and_eq_true_iff.mp held).1).1
    next => exact balanced
  | detach task parcel =>
    rw [step]
    split
    next held => exact balanced_detach balanced held
    next => exact balanced
  | expire task parcel =>
    rw [step]
    split
    next held => exact balanced_expire balanced held
    next => exact balanced

end Steps

theorem balanced_of_run {clock : Nat} {past : List (Event State Input Unit)} {s : State}
    (run : (machine (.idle clock)).Run (fun _ _ _ => True) (.idle clock) past s) : s.Balanced := by
  apply run.invariant fun _ s => s.Balanced
  · refine ⟨fun phase => ?_, ?_, fun parcel member => ?_⟩
    · simp [State.idle]
    · simp [State.idle]
    · simp [State.idle] at member
  · intro past s input _ _ balanced
    exact balanced_step balanced input

/-! ## Sums -/

section Sums
variable {s : State}

theorem sum_tally (trackers : List Tracker) : (Phase.all.map fun phase => tally phase trackers).sum = trackers.length := by
  induction trackers with
  | nil => rfl
  | cons tracker rest ih =>
    have once : (Phase.all.map fun phase => if tracker.phase = phase then (1 : Int) else 0).sum = 1 := by
      cases tracker.phase <;> rfl
    simp only [tally_cons, List.sum_map_add, ih, once]
    rfl

/-- Every counter tells how many images are at the places of its phase. -/
theorem State.Balanced.items_eq (balanced : s.Balanced) (phase : Phase) : s.meters.items phase.name = s.present phase := by
  rw [balanced.counted, State.present, Bag.total_cast]
  apply Bag.total_congr
  intro parcel member
  rw [tally_uniform (balanced.sound parcel member).phase]
  split <;> rfl

theorem State.Balanced.items_sum (balanced : s.Balanced) :
    (Phase.all.map fun phase => s.meters.items phase.name).sum + s.unjoined = s.inFlight + s.detached := by
  have trackers : (Phase.all.map fun phase => s.meters.items phase.name).sum =
      (Bag.total (fun parcel => parcel.trackers.length) s.parcels : Nat) := by
    rw [List.map_congr_left fun phase _ => balanced.counted phase, Bag.sum_totals, Bag.total_cast]
    exact Bag.total_congr fun parcel _ => sum_tally parcel.trackers
  have counted : Bag.total (fun parcel => parcel.trackers.length + parcel.unjoined) s.parcels =
      Bag.total (fun parcel => parcel.permits + parcel.detached) s.parcels :=
    Bag.total_congr fun parcel member => (balanced.sound parcel member).counted
  rw [Bag.total_add_weight, Bag.total_add_weight, ← balanced.permits] at counted
  rw [trackers]
  exact_mod_cast counted

end Sums

/-- In every reachable state each counter is the number of trackers at the places of its
phase, one for each permit while claiming and then one for each image, and together they are the permits in flight, less the tasks that panicked and
have not been waited for, plus those that go on without their stage. Once nothing is
left on the way, everything is back to zero. -/
theorem phases_add_up {clock : Nat} {past : List (Event State Input Unit)} {s : State}
    (run : (machine (.idle clock)).Run (fun _ _ _ => True) (.idle clock) past s) :
    (∀ phase : Phase, s.meters.items phase.name = s.present phase) ∧
      (Phase.all.map fun phase => s.meters.items phase.name).sum + s.unjoined = s.inFlight + s.detached ∧
      (s.parcels = 0 → s.inFlight = 0 ∧ ∀ phase : Phase, s.meters.items phase.name = 0) := by
  have balanced := balanced_of_run run
  refine ⟨balanced.items_eq, balanced.items_sum, fun drained => ⟨?_, fun phase => ?_⟩⟩
  · rw [balanced.permits, drained, Bag.total_zero]
  · rw [balanced.counted, drained, Bag.total_zero]

section Example
open Machine

def single (place : Place) (image : Nat) (phase : Phase) (since : Nat) : Parcel := ⟨place, [image], 1, [⟨phase, since⟩]⟩

/-- Of three permits two become images; the download of one panics. -/
def stalled : List Input := [
  .acquire 3,
  .claim ⟨.claiming, [], 3, [⟨.claim, 0⟩, ⟨.claim, 0⟩, ⟨.claim, 0⟩]⟩ [7, 8],
  .tick 5,
  .start .download (single (.ready .download) 7 .claim 0),
  .start .download (single (.ready .download) 8 .claim 0),
  .panic .download (single (.running .download) 7 .download 5)]

theorem phases_add_up_stalled :
    let s := ((machine (.idle 0)).play ([], .idle 0) stalled).2
    s.inFlight = 2 ∧ s.unjoined = 1 ∧ s.meters.items "download" = 1 ∧
      (Phase.all.map fun phase => s.meters.items phase.name).sum + s.unjoined = s.inFlight + s.detached := by
  have run : (machine (.idle 0)).Run (fun _ _ _ => True) (.idle 0) _ _ :=
    Run.start.play stalled (permitted_always (fun _ _ _ => trivial) _ _)
  exact ⟨by decide, by decide, by decide, (phases_add_up run).2.1⟩

end Example
end LetsEmbed.Phases
