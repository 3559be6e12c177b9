import LetsEmbed.Systems.Machine

/-! A model that is loaded on demand, and dropped by a reaper when it has been idle
(`search_engine/src/lib.rs`). The lock of its inner state is handed on in the order in which
it was asked for, and is held while a model is loaded. -/

namespace LetsEmbed.LazyModel
open Systems

/-- Instants and durations are in nanoseconds. -/
def second : Nat := 1_000_000_000

/-- Models are told apart by their number. -/
structure Inner where
  session : Option Nat
  lastUsed : Nat

inductive Waiter where
  | caller (id : Nat)
  | reaper
  deriving DecidableEq

structure State where
  now : Nat
  inner : Inner
  loader : Option Nat
  waiting : List Waiter
  wake : Option Nat -- when the reaper is to go on, unless it waits for the lock
  loaded : Nat

inductive Input where
  | session (id : Nat)
  | lock
  | load (result : Except String Unit)
  | drop (id : Nat) -- a caller may go away while it waits
  | wake
  | tick (elapsed : Nat)

inductive Note where
  | returned (id model : Nat)
  | failed (id : Nat) (message : String)
  | unloaded
  deriving DecidableEq

namespace State
variable (idleTimeout : Option Nat) (s : State)

/-- The reaper is spawned at once, where there is one, and asks for the lock when it gets
to run, which callers may do before. -/
def new (now : Nat) : State := ⟨now, ⟨none, now⟩, none, [], idleTimeout.map fun _ => now, 0⟩

def touch (id model : Nat) : Option Note × State :=
  (some (.returned id model), { s with inner := { s.inner with lastUsed := s.now } })

/-- One round of the reaper, up to its sleep. -/
def reap (idle : Nat) : Option Note × State :=
  match s.inner.session with
  | some _ =>
    let elapsed := s.now - s.inner.lastUsed
    if elapsed ≥ idle then (some .unloaded, { s with inner := { s.inner with session := none }, wake := some (s.now + idle) })
    else (none, { s with wake := some (s.now + max (idle - elapsed) second) })
  | none => (none, { s with wake := some (s.now + idle) })

def granted : Waiter → Option Note × State
  | .caller id =>
    match s.inner.session with
    | some model => s.touch id model
    | none => (none, { s with loader := some id })
  | .reaper =>
    match idleTimeout with
    | some idle => s.reap idle
    | none => (none, s)

def lock : Option Note × State :=
  match s.loader, s.waiting with
  | none, waiter :: waiting => { s with waiting }.granted idleTimeout waiter
  | _, _ => (none, s)

def load (result : Except String Unit) : Option Note × State :=
  match s.loader, result with
  | some id, .ok () =>
    { s with loader := none, loaded := s.loaded + 1, inner := { s.inner with session := some s.loaded } }.touch id s.loaded
  | some id, .error message => (some (.failed id message), { s with loader := none })
  | none, _ => (none, s)

def wakeUp : State :=
  match s.wake with
  | some instant => if instant ≤ s.now then { s with wake := none, waiting := s.waiting ++ [.reaper] } else s
  | none => s

def step : Input → Option Note × State
  | .session id => (none, { s with waiting := s.waiting ++ [.caller id] })
  | .lock => s.lock idleTimeout
  | .load result => s.load result
  | .drop id => (none, { s with waiting := s.waiting.filter (· ≠ .caller id), loader := s.loader.filter (· ≠ id) })
  | .wake => (none, s.wakeUp)
  | .tick elapsed => (none, { s with now := s.now + elapsed })

end State

def machine (idleTimeout : Option Nat) (start : Nat) : Machine State Input (Option Note) :=
  ⟨.new idleTimeout start, State.step idleTimeout⟩

/-- Time passes only where nobody can go on: while nobody waits for a free lock, and until
the reaper is to wake up. -/
def prompt : Guard State Input (Option Note)
  | _, s, .tick elapsed => (s.loader = none → s.waiting = []) ∧ s.wake.all (s.now + elapsed ≤ ·)
  | _, _, _ => True

instance : ∀ past s input, Decidable (prompt past s input)
  | _, s, .tick elapsed => inferInstanceAs (Decidable ((s.loader = none → s.waiting = []) ∧ s.wake.all (s.now + elapsed ≤ ·)))
  | _, _, .session _ | _, _, .lock | _, _, .load _ | _, _, .drop _ | _, _, .wake => .isTrue trivial

end LetsEmbed.LazyModel
