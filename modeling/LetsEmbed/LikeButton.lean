import LetsEmbed.Likes
import LetsEmbed.Systems.Machine

/-! The hearts and stars of the search app (`search/app/src/components/like_button.rs`), any
number of them, over the table of likes: what each shows, and its calls that are on the way. -/

namespace LetsEmbed.LikeButton
open Likes Systems

inductive ApiResult where
  | liked (liked : Bool)
  | unauthorized
  deriving DecidableEq

inductive Method where
  | get
  | post
  | delete
  deriving DecidableEq

inductive LikeState where
  | liked
  | notLiked
  | signedOut
  deriving DecidableEq

def LikeState.told (liked : Bool) : LikeState := if liked then .liked else .notLiked

/-- What a response is read as. -/
def read : Answer → Except String ApiResult
  | .error status _ => if status = 401 then .ok .unauthorized else .error ("unexpected status " ++ toString status)
  | .liked liked => .ok (.liked liked)
  | .likes .. => .error "malformed like response"

/-- A task of a button, with what its outcome is going to be once that is decided, and what
an error leaves shown. -/
structure Call where
  method : Method
  prev : LikeState
  result : Option (Except String ApiResult)
  deriving DecidableEq

def Call.next (call : Call) : Except String ApiResult → LikeState
  | .ok (.liked liked) => .told liked
  | .ok .unauthorized => .signedOut
  | .error _ => call.prev

structure Button where
  kind : String
  targetId : Int
  state : Option LikeState
  pending : Bool
  disposed : Bool
  calls : List Call
  deriving DecidableEq

namespace Button
variable (button : Button)

def mount (kind : String) (targetId : Int) : Button := ⟨kind, targetId, none, false, false, [⟨.get, .signedOut, none⟩]⟩

def launch (method : Method) (prev optimistic : LikeState) : Button :=
  { button with pending := true, state := some optimistic, calls := button.calls ++ [⟨method, prev, none⟩] }

/-- A click. What is disposed of is not there to be clicked. -/
def toggle : Button :=
  if button.disposed ∨ button.pending then button
  else
    match button.state with
    | some .liked => button.launch .delete .liked .notLiked
    | some .notLiked => button.launch .post .notLiked .liked
    | some .signedOut | none => button

def resolve (i : Nat) (result : Except String ApiResult) : Button :=
  { button with calls := button.calls.modify i fun call => { call with result := some result } }

/-- The end of a task. The signals of a disposed component are gone. -/
def settle (i : Nat) (call : Call) (result : Except String ApiResult) : Button :=
  let button := { button with calls := button.calls.eraseIdx i }
  if button.disposed then button
  else { button with state := some (call.next result), pending := if call.method = .get then button.pending else false }

def request : LikeReq := ⟨button.kind, button.targetId⟩

/-- The handler a call is for. -/
def serve (method : Method) (session : Option String) (now : Int) (ran : Ran) (table : Table) : Answer × Table :=
  match method with
  | .get => (liked session button.request ran table, table)
  | .post => like session button.request now ran table
  | .delete => unlike session button.request ran table

end Button

structure State where
  table : Table
  buttons : List Button

/-- Requests that do not come from a button. -/
inductive Write where
  | like (req : LikeReq) (now : Int)
  | unlike (req : LikeReq)

inductive Input where
  | mount (kind : String) (targetId : Int)
  | click (b : Nat)
  | serve (b i : Nat) (session : Option String) (now : Int) (ran : Ran)
  | lose (b i : Nat) (message : String)
  | settle (b i : Nat)
  | dispose (b : Nat)
  | elsewhere (write : Write) (session : Option String) (ran : Ran)

inductive Note where
  | served (b : Nat) (session : Option String) (answer : Answer)
  | arrived (b : Nat) (result : Except String ApiResult)

namespace State
variable (s : State)

def modify (b : Nat) (f : Button → Button) : State := { s with buttons := s.buttons.modify b f }

def call (b i : Nat) : Option (Button × Call) := s.buttons[b]?.bind fun button => button.calls[i]?.map (button, ·)

/-- A call is served once, and may fail before that or after. -/
def step : Input → Option Note × State
  | .mount kind targetId => (none, { s with buttons := s.buttons ++ [.mount kind targetId] })
  | .click b => (none, s.modify b Button.toggle)
  | .serve b i session now ran =>
    match s.call b i with
    | some (button, ⟨method, _, none⟩) =>
      let (answer, table) := button.serve method session now ran s.table
      (some (.served b session answer), { s.modify b fun button => button.resolve i (read answer) with table })
    | _ => (none, s)
  | .lose b i message => (none, s.modify b fun button => button.resolve i (.error message))
  | .settle b i =>
    match s.call b i with
    | some (_, ⟨method, prev, some result⟩) =>
      (some (.arrived b result), s.modify b fun button => button.settle i ⟨method, prev, some result⟩ result)
    | _ => (none, s)
  | .dispose b => (none, s.modify b fun button => { button with disposed := true })
  | .elsewhere write session ran =>
    let (_, table) := match write with
      | .like req now => like session req now ran s.table
      | .unlike req => unlike session req ran s.table
    (none, { s with table })

end State

def machine (table : Table) : Machine State Input (Option Note) := ⟨⟨table, []⟩, State.step⟩

end LetsEmbed.LikeButton
