import Mathlib.Data.List.Dedup
import LetsEmbed.Systems.Machine

/-! The embedding workers (`embed/src/cli.rs`) over the table `images`, as far as
claims go: the statement that claims images, the two that `record` writes results
with, and workers that crash. What is downloaded and inferred is left out. -/

namespace LetsEmbed.Embed
open Systems

inductive ProcessStatus where
  | pending
  | processing
  | completed
  deriving DecidableEq

structure Image where
  status : ProcessStatus
  attempt : Nat
  claimedAt : Option Nat
  deriving DecidableEq

/-- An image in a worker's pipeline. The ticket and the time tell claims of one
image apart; no statement looks at them. -/
structure Job where
  worker : Nat
  image : Nat
  ticket : Nat
  claimedAt : Nat
  deriving DecidableEq

/-- A write of `record` on its way, with what its two statements are still to do. -/
structure Write where
  worker : Nat
  completed : List Job
  failed : List Job
  deriving DecidableEq

structure State where
  clock : Nat
  images : Nat → Option Image
  tickets : Nat
  jobs : List Job
  writes : List Write

/-- The scans of the claim list rows in the order they are found in, without the
locked ones. A batch names the jobs whose results are written, and the failed ones. -/
inductive Input where
  | tick (elapsed : Nat)
  | claim (worker permits : Nat) (pending stranded : List Nat)
  | record (worker : Nat) (batch failed : List Job)
  | complete (write : Nat)
  | reset (write : Nat)
  | abandon (write : Nat)
  | crash (worker : Nat)

structure Change where
  job : Job
  before : ProcessStatus
  after : ProcessStatus
  deriving DecidableEq

structure Output where
  claimed : List Job
  changed : List Change

def silent : Output := ⟨[], []⟩

namespace State
variable (s : State)

def isPending (image : Nat) : Bool := (s.images image).any fun row => row.status = .pending && row.attempt ≤ 5

/-- Left in `processing` for longer than `reclaim_after`. -/
def isStranded (reclaimAfter image : Nat) : Bool :=
  (s.images image).any fun row => row.status = .processing && row.attempt ≤ 5 &&
    row.claimedAt.any (· + reclaimAfter < s.clock)

def nextJobs (reclaimAfter permits : Nat) (pending stranded : List Nat) : List Nat :=
  ((pending.dedup.filter s.isPending).take permits ++
    (stranded.dedup.filter (s.isStranded reclaimAfter)).take permits).take permits

def update (images : List Nat) (change : Image → Image) : State :=
  { s with images := fun image => (s.images image).map fun row => if image ∈ images then change row else row }

def fetchBatch (reclaimAfter worker permits : Nat) (pending stranded : List Nat) : Output × State :=
  let images := s.nextJobs reclaimAfter permits pending stranded
  let jobs := images.zipIdx.map fun found => ⟨worker, found.1, s.tickets + found.2, s.clock⟩
  let claimed := s.update images fun row => { row with
    status := .processing, attempt := row.attempt + 1, claimedAt := some s.clock }
  (⟨jobs, []⟩, { claimed with tickets := s.tickets + images.length, jobs := s.jobs ++ jobs })

/-- `record` takes what is there of a batch; every job of it is in one of the two
lists of the write. -/
def record (worker : Nat) (batch failed : List Job) : State :=
  let taken := s.jobs.filter fun job => job.worker = worker ∧ job ∈ batch
  { s with
    jobs := s.jobs.filter fun job => ¬ (job.worker = worker ∧ job ∈ batch)
    writes := s.writes ++ [⟨worker, taken.filter (· ∉ failed), taken.filter (· ∈ failed)⟩] }

def changes (jobs : List Job) (status : ProcessStatus) : List Change :=
  jobs.filterMap fun job => (s.images job.image).map fun row => ⟨job, row.status, status⟩

def complete (write : Nat) : Output × State :=
  match s.writes[write]? with
  | none => (silent, s)
  | some pending =>
    (⟨[], s.changes pending.completed .completed⟩,
      { s.update (pending.completed.map (·.image)) ({ · with status := .completed }) with
        writes := s.writes.set write { pending with completed := [] } })

/-- The second statement, once nothing is left to complete. It ends the write. -/
def reset (write : Nat) : Output × State :=
  match s.writes[write]? with
  | none => (silent, s)
  | some pending =>
    if pending.completed ≠ [] then (silent, s)
    else
      (⟨[], s.changes pending.failed .pending⟩,
        { s.update (pending.failed.map (·.image)) ({ · with status := .pending }) with
          writes := s.writes.eraseIdx write })

def crash (worker : Nat) : State :=
  { s with jobs := s.jobs.filter (·.worker ≠ worker), writes := s.writes.filter (·.worker ≠ worker) }

end State

def step (reclaimAfter : Nat) (s : State) : Input → Output × State
  | .tick elapsed => (silent, { s with clock := s.clock + elapsed })
  | .claim worker permits pending stranded => s.fetchBatch reclaimAfter worker permits pending stranded
  | .record worker batch failed => (silent, s.record worker batch failed)
  | .complete write => s.complete write
  | .reset write => s.reset write
  | .abandon write => (silent, { s with writes := s.writes.eraseIdx write })
  | .crash worker => (silent, s.crash worker)

def machine (reclaimAfter : Nat) (start : State) : Machine State Input Output := ⟨start, step reclaimAfter⟩

abbrev Past := List (Event State Input Output)

/-- The most recent claim of an image. -/
def holder (past : Past) (image : Nat) : Option Job :=
  past.findSome? fun event => event.output.claimed.find? (·.image = image)

end LetsEmbed.Embed
