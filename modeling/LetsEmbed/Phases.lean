import Mathlib.Algebra.Order.Group.Multiset
import LetsEmbed.Systems.Bag
import LetsEmbed.Systems.Machine

/-! Where images are in the embedding pipeline: the trackers that count them by phase
(`embed/src/phase.rs`) and travel through the stages of `embed/src/cli.rs` next to the
gate's permits. How many a stage takes at once, what a channel holds and which tasks
fail is left to the run. -/

namespace LetsEmbed.Phases
open Systems

inductive Phase where
  | claim
  | download
  | decodeQueue
  | decode
  | inferQueue
  | infer
  | recordQueue
  | write
  deriving DecidableEq

def Phase.name : Phase → String
  | .claim => "claim"
  | .download => "download"
  | .decodeQueue => "decode_queue"
  | .decode => "decode"
  | .inferQueue => "infer_queue"
  | .infer => "infer"
  | .recordQueue => "record_queue"
  | .write => "write"

def Phase.all : List Phase := [.claim, .download, .decodeQueue, .decode, .inferQueue, .infer, .recordQueue, .write]

/-- `embed.items` and `embed.phase.duration` by their attribute. -/
structure Meters where
  items : String → Int
  duration : String → List Nat

def Meters.add (m : Meters) (amount : Int) (phase : Phase) : Meters :=
  { m with items := Function.update m.items phase.name (m.items phase.name + amount) }

def Meters.record (m : Meters) (stay : Nat) (phase : Phase) : Meters :=
  { m with duration := Function.update m.duration phase.name (stay :: m.duration phase.name) }

structure Tracker where
  phase : Phase
  since : Nat
  deriving DecidableEq

namespace Tracker

def new (m : Meters) (now : Nat) (phase : Phase) : Tracker × Meters := (⟨phase, now⟩, m.add 1 phase)

def leave (tracker : Tracker) (m : Meters) (stay : Nat) : Meters := (m.record stay tracker.phase).add (-1) tracker.phase

def enter (tracker : Tracker) (m : Meters) (now : Nat) (next : Phase) : Tracker × Meters :=
  (⟨next, now⟩, (tracker.leave m (now - tracker.since)).add 1 next)

/-- No time is recorded. -/
def discard (tracker : Tracker) (m : Meters) : Meters := m.add (-1) tracker.phase

def drop (tracker : Tracker) (m : Meters) (now : Nat) : Meters := tracker.leave m (now - tracker.since)

def newAll (m : Meters) (now : Nat) (phase : Phase) : Nat → List Tracker × Meters
  | 0 => ([], m)
  | count + 1 =>
    let (trackers, m) := newAll m now phase count
    let (tracker, m) := new m now phase
    (tracker :: trackers, m)

def enterAll (m : Meters) (now : Nat) (next : Phase) : List Tracker → List Tracker × Meters
  | [] => ([], m)
  | tracker :: rest =>
    let (tracker, m) := tracker.enter m now next
    let (rest, m) := enterAll m now next rest
    (tracker :: rest, m)

def discardAll (m : Meters) (trackers : List Tracker) : Meters := trackers.foldl (fun m tracker => tracker.discard m) m

def dropAll (m : Meters) (now : Nat) (trackers : List Tracker) : Meters :=
  trackers.foldl (fun m tracker => tracker.drop m now) m

end Tracker

/-- The two things `convert_image` spawns a task for. -/
inductive Task where
  | download
  | decode
  deriving DecidableEq

/-- Who has an image: `fetch_batch` while its query runs, `convert_image` before, in and
after one of its tasks, `infer`, the channel after it, or a write of `record`. A task
that panicked is noticed later, and one whose stage is gone runs on. -/
inductive Place where
  | claiming
  | ready (task : Task)
  | running (task : Task)
  | panicked (task : Task)
  | detached (task : Task)
  | decoded
  | inferring
  | inferred
  | writing
  deriving DecidableEq

def Place.isRunning : Place → Bool
  | .running _ => true
  | _ => false

/-- What is passed on together: images, a ticket of this many permits, and trackers. -/
structure Parcel where
  place : Place
  images : List Nat
  permits : Nat
  trackers : List Tracker
  deriving DecidableEq

namespace Task

def starts : Task → Phase
  | .download => .download
  | .decode => .decode

def ends : Task → Phase
  | .download => .decodeQueue
  | .decode => .inferQueue

def after : Task → Place
  | .download => .ready .decode
  | .decode => .decoded

end Task

structure State where
  clock : Nat
  inFlight : Nat
  completed : Nat
  meters : Meters
  parcels : Multiset Parcel

def State.idle (clock : Nat) : State := ⟨clock, 0, 0, ⟨fun _ => 0, fun _ => []⟩, 0⟩

inductive Input where
  | tick (elapsed : Nat)
  | acquire (permits : Nat)
  | claim (parcel : Parcel) (records : List Nat)
  | start (task : Task) (parcel : Parcel)
  | finish (task : Task) (parcel : Parcel)
  | panic (task : Task) (parcel : Parcel)
  | join (task : Task) (parcel : Parcel)
  | infer (batch : List Parcel)
  | inferred (parcel : Parcel)
  | record (batches : List Parcel)
  | written (parcel : Parcel) (completed : Nat)
  | lose (parcel : Parcel)
  | detach (task : Task) (parcel : Parcel)
  | expire (task : Task) (parcel : Parcel)

namespace State
variable (s : State)

/-- These are all there, at this place. -/
def holds (place : Place) (parcels : List Parcel) : Bool :=
  (parcels : Multiset Parcel) ≤ s.parcels && parcels.all (·.place = place)

def exchange (taken put : List Parcel) (meters : Meters) : State :=
  { s with parcels := Bag.exchange s.parcels taken put, meters }

def acquire (permits : Nat) : State :=
  let (trackers, meters) := Tracker.newAll s.meters s.clock .claim permits
  { s.exchange [] [⟨.claiming, [], permits, trackers⟩] meters with inFlight := s.inFlight + permits }

/-- An error, a panic or a closed channel: everything is dropped. -/
def lose (parcel : Parcel) : State :=
  { s.exchange [parcel] [] (Tracker.dropAll s.meters s.clock parcel.trackers) with inFlight := s.inFlight - parcel.permits }

/-- The trackers that are too many are drained, which panics if there are too few. -/
def claim (parcel : Parcel) (records : List Nat) : State :=
  if records.length ≤ parcel.trackers.length then
    let meters := Tracker.discardAll s.meters (parcel.trackers.drop records.length)
    let images := (records.zip parcel.trackers).map fun found => (⟨.ready .download, [found.1], 1, [found.2]⟩ : Parcel)
    { s.exchange [parcel] images meters with inFlight := s.inFlight - (parcel.permits - records.length) }
  else s.lose parcel

/-- All trackers of these enter the next phase, and they go on as one. -/
def merge (parcels : List Parcel) (place : Place) (next : Phase) : State :=
  let (trackers, meters) := Tracker.enterAll s.meters s.clock next (parcels.flatMap (·.trackers))
  s.exchange parcels [⟨place, parcels.flatMap (·.images), (parcels.map (·.permits)).sum, trackers⟩] meters

def panic (task : Task) (parcel : Parcel) : State :=
  s.exchange [parcel] [{ parcel with place := .panicked task, trackers := [] }]
    (Tracker.dropAll s.meters s.clock parcel.trackers)

def join (task : Task) (parcel : Parcel) : State :=
  let (tracker, meters) := Tracker.new s.meters s.clock task.ends
  s.exchange [parcel] [{ parcel with place := task.after, trackers := [tracker] }] meters

/-- Only the completed images count for the gate; all permits go back. -/
def written (parcel : Parcel) (completed : Nat) : State :=
  { s.lose parcel with completed := s.completed + completed }

/-- The ticket goes with the stage, the tracker stays with the task. -/
def detach (task : Task) (parcel : Parcel) : State :=
  { s.exchange [parcel] [{ parcel with place := .detached task, permits := 0 }] s.meters with
    inFlight := s.inFlight - parcel.permits }

/-- Its result is dropped at once. -/
def expire (task : Task) (parcel : Parcel) : State :=
  let (trackers, meters) := Tracker.enterAll s.meters s.clock task.ends parcel.trackers
  s.exchange [parcel] [] (Tracker.dropAll meters s.clock trackers)

end State

def step (s : State) : Input → State
  | .tick elapsed => { s with clock := s.clock + elapsed }
  | .acquire permits => s.acquire permits
  | .claim parcel records => if s.holds .claiming [parcel] then s.claim parcel records else s
  | .start task parcel =>
    if s.holds (.ready task) [parcel] then s.merge [parcel] (.running task) task.starts else s
  | .finish task parcel => if s.holds (.running task) [parcel] then s.merge [parcel] task.after task.ends else s
  | .panic task parcel => if s.holds (.running task) [parcel] then s.panic task parcel else s
  | .join task parcel => if s.holds (.panicked task) [parcel] then s.join task parcel else s
  | .infer batch => if !batch.isEmpty && s.holds .decoded batch then s.merge batch .inferring .infer else s
  | .inferred parcel => if s.holds .inferring [parcel] then s.merge [parcel] .inferred .recordQueue else s
  | .record batches => if !batches.isEmpty && s.holds .inferred batches then s.merge batches .writing .write else s
  | .written parcel completed =>
    if s.holds .writing [parcel] && completed ≤ parcel.images.length then s.written parcel completed else s
  | .lose parcel => if s.holds parcel.place [parcel] && !parcel.place.isRunning then s.lose parcel else s
  | .detach task parcel => if s.holds (.running task) [parcel] then s.detach task parcel else s
  | .expire task parcel => if s.holds (.detached task) [parcel] then s.expire task parcel else s

def machine (start : State) : Machine State Input Unit := ⟨start, fun s input => ((), step s input)⟩

end LetsEmbed.Phases
