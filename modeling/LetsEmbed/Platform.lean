import LetsEmbed.Gateway
import LetsEmbed.Systems.Launched
import LetsEmbed.Worker

/-! The deployed system: requests to the gateway and to the user worker, side by side over
the same account objects and tables. To the user worker's requests come those of the
administrators (`user_worker/src/admin.rs`) and the plan changes (`payments.rs`), which
write to the account object first and to a mirror in `users` after it. -/

namespace LetsEmbed.Platform
open Account Auth Config Payments Session SolanaLink Systems Text

/-- A change of plan, as `plan_passthrough` forwards it. -/
inductive PlanChange where
  | subscribe (plan : String)
  | unsubscribe

def PlanChange.plan : PlanChange → Option String
  | .subscribe plan => some plan
  | .unsubscribe => none

/-- What a gateway or a handler may ask for. An alarm is asked for by the object itself. -/
inductive Command where
  | user (command : LetsEmbed.Command)
  | gateway (command : Gateway.Command)
  | doStatus (address : String)
  | doPlan (address : String) (change : PlanChange)
  | doBan (address : String) (banned : Bool)
  | doAlarm (address : String)
  | updatePlan (address : String) (plan : Option String)
  | updateBanned (address : String) (banned : Bool)

/-- A call of an object is answered with what the object answers, or not at all. -/
abbrev Command.Reply : Command → Type
  | .user command => command.Reply
  | .gateway command => command.Reply
  | .doStatus _ | .doPlan .. | .doBan .. => Option Account.Reply
  | .doAlarm _ => Unit
  | .updatePlan .. | .updateBanned .. => Except Failure Unit

/-- `plan` is the mirrored column of `users`, for display only. -/
structure World where
  services : LetsEmbed.World
  plan : String → Option String

structure Choice where
  fault : Fault
  now : Nat
  fetched : Fetched
  sent : Gateway.Sent
  disarmed : Bool

/-- The status of an object's response, if there is one. -/
def status : Account.Reply → Option Nat
  | .charge code _ => some code
  | .error code _ => some code
  | .balance _ | .status _ | .ok => some 200
  | .panic _ => none

/-- An object call: a failure may hide that it took effect. -/
def call {α : Type} (fault : Fault) (w : World) (address : String) (result : Account.Reply × Storage)
    (answer : Account.Reply → Option α) : Option α × World :=
  let late := { w with services := w.services.setAccount address result.2 }
  match fault with
  | .none => (answer result.1, late)
  | .refused => (none, w)
  | .lost => (none, late)

def World.updateBanned (w : World) (address : String) (banned : Bool) : World :=
  { w with services := { w.services with users := w.services.users.map fun row =>
      if row.address = address then { row with banned := banned } else row } }

def World.updatePlan (w : World) (address : String) (plan : Option String) : World :=
  if (w.services.user address).isSome then { w with plan := Function.update w.plan address plan } else w

def write (fault : Fault) (w late : World) : Except Failure Unit × World :=
  match fault with
  | .none => (.ok (), late)
  | .refused => (.error .other, w)
  | .lost => (.error .other, late)

def planStep (s : Storage) (choice : Choice) : PlanChange → Account.Reply × Storage
  | .subscribe plan => subscribe s choice.now plan
  | .unsubscribe => Account.unsubscribe s choice.now choice.disarmed

def serve (w : World) (command : Command) (choice : Choice) : command.Reply × World :=
  let account := w.services.accounts
  match command with
  | .user command =>
    let (reply, services) := LetsEmbed.serve w.services command ⟨choice.fault, choice.now, choice.fetched⟩
    (reply, { w with services })
  | .gateway .now => (choice.now, w)
  | .gateway (.charge sub req) => call choice.fault w sub (charge (account sub) choice.now req) status
  | .gateway (.forwardUser _) => (choice.sent, w)
  | .gateway (.send _) => (choice.sent, w)
  | .doStatus address => call choice.fault w address (.status (statusResp (account address) choice.now), account address) some
  | .doPlan address change => call choice.fault w address (planStep (account address) choice change) some
  | .doBan address banned => call choice.fault w address (ban (account address) choice.now banned) some
  | .doAlarm address => ((), (call choice.fault w address (alarm (account address) choice.now) some).2)
  | .updatePlan address plan => write choice.fault w (w.updatePlan address plan)
  | .updateBanned address banned => write choice.fault w (w.updateBanned address banned)

inductive Answer where
  | user (answer : LetsEmbed.Answer)
  | gateway (answer : Gateway.Answer)
  | text (status : Nat) (body : String)
  | relayed (reply : Account.Reply)
  | redirect (location : String)

abbrev Handler := Systems.Handler Command Command.Reply Answer

def internalError : Answer := .text 500 "internal error"

def loginRequired : Answer := .user (apiErr 401 "login required")

structure CreditForm where
  address : String
  points : Int
  reason : String
  token : String

/-- `banned` is 0 to lift a ban. -/
structure BanForm where
  address : String
  banned : Int

/-- A form is about a principal that has an account. -/
def validateFormAddress (address : String) : Handler Unit := do
  if isValidPrincipal address then
    match ← Handler.perform (Command.user (.selectUser address)) with
    | .ok (some _) => pure ()
    | .ok none => throw (.text 404 "unknown user")
    | .error _ => throw internalError
  else throw (.text 400 "invalid address")

/-- `approver` is what `require_approver` made of the headers. -/
def requireApprover (approver : Option String) : Handler Unit :=
  match approver with
  | some _ => pure ()
  | none => throw (.text 403 "Access not configured")

/-- The key of a form's credit. Without a token each submission has a new one. -/
def creditKey (form : CreditForm) (uuid : String) : String :=
  "admin:" ++ if (trim form.token).isEmpty then uuid else form.token

def credit (approver : Option String) (form : CreditForm) (uuid : String) : Handler Answer := do
  requireApprover approver
  validateFormAddress form.address
  match ← Handler.perform (Command.user (.doCredit form.address ⟨form.points, creditKey form uuid, form.reason⟩)) with
  | .error _ => throw internalError
  | .ok _ => pure (.redirect ("/user/admin?address=" ++ form.address))

/-- The object enforces bans, so it comes first; the column is for the list and for
logins. -/
def ban (approver : Option String) (form : BanForm) : Handler Answer := do
  requireApprover approver
  validateFormAddress form.address
  let banned := decide (form.banned ≠ 0)
  let reply ← Handler.perform (Command.doBan form.address banned)
  if (reply.bind status) = some 200 then
    match ← Handler.perform (Command.updateBanned form.address banned) with
    | .ok () => pure (.redirect ("/user/admin?address=" ++ form.address))
    | .error _ => throw internalError
  else throw internalError

/-- The plan is mirrored after a 200, whether that works or not. -/
def planPassthrough (addr : String) (change : PlanChange) : Handler Answer := do
  match ← Handler.perform (Command.doPlan addr change) with
  | none => throw (.user (apiErr 500 "subscription update failed"))
  | some reply => do
    if status reply = some 200 then do
      let _ ← Handler.perform (Command.updatePlan addr change.plan)
      pure (.relayed reply)
    else pure (.relayed reply)

def changePlan (session : Option String) (change : PlanChange) : Handler Answer :=
  match session with
  | none => throw loginRequired
  | some addr => planPassthrough addr change

def me (session : Option String) : Handler Answer :=
  match session with
  | none => throw (.user (apiErr 401 "not signed in"))
  | some addr => do
    match ← Handler.perform (Command.doStatus addr) with
    | some reply => if status reply = some 200 then pure (.relayed reply) else throw (.user SolanaLink.internalError)
    | none => throw (.user SolanaLink.internalError)

inductive Request where
  | gateway (request : Gateway.Request)
  | worker (arrival : Worker.Arrival)
  | credit (approver : Option String) (form : CreditForm) (uuid : String)
  | ban (approver : Option String) (form : BanForm)
  | plan (session : Option String) (change : PlanChange)
  | me (session : Option String)
  | alarm (address : String)

abbrev Outcome := Except Answer Answer

def outcome {α : Type} (wrap : α → Answer) : Except α α → Outcome
  | .ok answer => .ok (wrap answer)
  | .error answer => .error (wrap answer)

def launch (gs : Gateway.State) (st : SiweState) : Request → Program Command Command.Reply Outcome
  | .gateway request => outcome .gateway <$> (Gateway.gateway gs request).run.within Command.gateway
  | .worker arrival => outcome .user <$> (Worker.Arrival.launch st arrival).within Command.user
  | .credit approver form uuid => (credit approver form uuid).run
  | .ban approver form => (ban approver form).run
  | .plan session change => (changePlan session change).run
  | .me session => (me session).run
  | .alarm address => .call (.doAlarm address) fun _ => .pure (.ok (.text 200 ""))

def machine (gs : Gateway.State) (st : SiweState) (start : World) := Pool.machine serve (launch gs st) start

abbrev Served := Systems.Served Command Command.Reply World Choice

end LetsEmbed.Platform
