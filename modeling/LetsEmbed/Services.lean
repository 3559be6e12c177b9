import LetsEmbed.Account
import LetsEmbed.Json
import LetsEmbed.Systems.Program

/-! What the user worker's handlers work on: the D1 tables `users` and
`payments`, the nonce store, the account objects and outgoing requests. Every
statement and every object call is atomic, and may fail before it took effect
or after, with its response lost. -/

namespace LetsEmbed
open Account Systems

/-- How a call failed, as far as handlers tell: whether the error's text
mentions a constraint. -/
inductive Failure where
  | constraint
  | other
  deriving DecidableEq

inductive Fetched where
  | failed
  | answered (code : Nat) (body : Option Json)

inductive Status where
  | pending
  | credited
  | rejected
  deriving DecidableEq

structure PaymentRow where
  address : String
  chain : String
  token : String
  amount : Nat
  points : Int
  status : Status
  createdAt : Nat
  deriving DecidableEq

structure UserRow where
  address : String
  createdAt : Nat
  lastLogin : Nat
  banned : Bool
  solanaAddress : Option String
  deriving DecidableEq

structure World where
  payments : String → Option PaymentRow
  users : List UserRow
  nonces : String → Bool
  accounts : String → Storage

/-- Everything a handler may ask of its surroundings, one command a statement,
store access, object call or request. -/
inductive Command where
  | now
  | fetch (url : String) (body : Json)
  | insertPayment (hash address chain token : String) (createdAt : Nat)
  | rejectPayment (hash : String)
  | deletePending (hash : String)
  | creditPayment (hash : String) (amount : Nat) (points : Int)
  | selectSolana (address : String)
  | selectUser (address : String)
  | selectOwner (wallet : String)
  | updateSolana (address : String) (wallet : Option String)
  | upsertUser (address : String) (now : Nat)
  | selectBanned (address : String)
  | getNonce (key : String)
  | deleteNonce (key : String)
  | doInit (address : String)
  | doCredit (address : String) (req : CreditReq)

abbrev Command.Reply : Command → Type
  | .now => Nat
  | .fetch .. => Fetched
  | .insertPayment .. | .rejectPayment _ | .deletePending _ | .creditPayment .. | .updateSolana .. |
    .upsertUser .. | .deleteNonce _ => Except Failure Unit
  | .selectSolana _ => Except Failure (Option (Option String))
  | .selectUser _ | .selectOwner _ => Except Failure (Option String)
  | .selectBanned _ => Except Failure (Option Bool)
  | .getNonce _ => Except Failure Bool
  | .doInit _ => Except Failure StatusResp
  | .doCredit .. => Except Failure BalanceResp

namespace World
variable (w : World)

def user (address : String) : Option UserRow := w.users.find? (·.address = address)

def owner (wallet : String) : Option String := (w.users.find? (·.solanaAddress = some wallet)).map (·.address)

def setPayment (hash : String) (row : Option PaymentRow) : World :=
  { w with payments := Function.update w.payments hash row }

def updateStatus (hash : String) (change : PaymentRow → PaymentRow) : World :=
  match w.payments hash with
  | some row => w.setPayment hash (some (change row))
  | none => w

def setAccount (address : String) (storage : Storage) : World :=
  { w with accounts := Function.update w.accounts address storage }

/-- `tx_hash` is the primary key. -/
def insertPayment (hash address chain token : String) (createdAt : Nat) : Except Failure Unit × World :=
  match w.payments hash with
  | some _ => (.error .constraint, w)
  | none => (.ok (), w.setPayment hash (some ⟨address, chain, token, 0, 0, .pending, createdAt⟩))

/-- Only a row that is still pending is deleted. -/
def deletePending (hash : String) : World :=
  match w.payments hash with
  | some row => if row.status = .pending then w.setPayment hash none else w
  | none => w

/-- `solana_address` is unique among the rows. -/
def updateSolana (address : String) (wallet : Option String) : Except Failure Unit × World :=
  let taken := wallet.isSome && w.users.any fun row => row.address ≠ address && row.solanaAddress = wallet
  if (w.user address).isSome && taken then (.error .constraint, w)
  else (.ok (), { w with users := w.users.map fun row =>
    if row.address = address then { row with solanaAddress := wallet } else row })

def upsertUser (address : String) (now : Nat) : World :=
  if (w.user address).isSome then
    { w with users := w.users.map fun row => if row.address = address then { row with lastLogin := now } else row }
  else { w with users := w.users ++ [⟨address, now, now, false, none⟩] }

section Updates
variable {w : World} {hash : String} {row : Option PaymentRow}

@[simp] theorem setPayment_payments : (w.setPayment hash row).payments hash = row := Function.update_self ..

theorem setPayment_payments_of_ne {other : String} (different : other ≠ hash) :
    (w.setPayment hash row).payments other = w.payments other := Function.update_of_ne different ..

@[simp] theorem setPayment_setPayment {later : Option PaymentRow} :
    (w.setPayment hash row).setPayment hash later = w.setPayment hash later := by
  simp [setPayment, Function.update_idem]

theorem setPayment_self (current : w.payments hash = row) : w.setPayment hash row = w := by
  rw [setPayment, ← current, Function.update_eq_self]

@[simp] theorem updateStatus_setPayment {row : PaymentRow} {change : PaymentRow → PaymentRow} :
    (w.setPayment hash (some row)).updateStatus hash change = w.setPayment hash (some (change row)) := by
  simp [updateStatus]

theorem deletePending_setPayment {row : PaymentRow} (pending : row.status = .pending) :
    (w.setPayment hash (some row)).deletePending hash = w.setPayment hash none := by
  simp [deletePending, pending]

end Updates
end World

/-- Whether a call fails, and if so whether it took effect. -/
inductive Fault where
  | none
  | refused
  | lost
  deriving DecidableEq

structure Choice where
  fault : Fault
  now : Nat
  fetched : Fetched

def Fault.apply {α : Type} (fault : Fault) (w : World) (result : Except Failure α × World) :
    Except Failure α × World :=
  match fault with
  | .none => result
  | .refused => (.error .other, w)
  | .lost => (.error .other, result.2)

/-- Only a 200 with the expected body is a success. -/
def initReply : Reply → Except Failure StatusResp
  | .status resp => .ok resp
  | _ => .error .other

def creditReply : Reply → Except Failure BalanceResp
  | .balance resp => .ok resp
  | _ => .error .other

def serve (w : World) (command : Command) (choice : Choice) : command.Reply × World :=
  let fault := choice.fault
  match command with
  | .now => (choice.now, w)
  | .fetch .. => (choice.fetched, w)
  | .insertPayment hash address chain token createdAt =>
    fault.apply w (w.insertPayment hash address chain token createdAt)
  | .rejectPayment hash => fault.apply w (.ok (), w.updateStatus hash ({ · with status := .rejected }))
  | .deletePending hash => fault.apply w (.ok (), w.deletePending hash)
  | .creditPayment hash amount points =>
    fault.apply w (.ok (), w.updateStatus hash ({ · with amount := amount, points := points, status := .credited }))
  | .selectSolana address => fault.apply w (.ok ((w.user address).map (·.solanaAddress)), w)
  | .selectUser address => fault.apply w (.ok ((w.user address).map (·.address)), w)
  | .selectOwner wallet => fault.apply w (.ok (w.owner wallet), w)
  | .updateSolana address wallet => fault.apply w (w.updateSolana address wallet)
  | .upsertUser address now => fault.apply w (.ok (), w.upsertUser address now)
  | .selectBanned address => fault.apply w (.ok ((w.user address).map (·.banned)), w)
  | .getNonce key => fault.apply w (.ok (w.nonces key), w)
  | .deleteNonce key => fault.apply w (.ok (), { w with nonces := Function.update w.nonces key false })
  | .doInit address =>
    let (reply, storage) := Account.init (w.accounts address) choice.now address
    fault.apply w (initReply reply, w.setAccount address storage)
  | .doCredit address req =>
    let (reply, storage) := Account.credit (w.accounts address) req
    fault.apply w (creditReply reply, w.setAccount address storage)

inductive Body where
  | error (message : String)
  | topup (creditedPoints balance : Int)
  | linked (wallet : String)
  | session (address : String) (issued expires : Nat)
  | empty
  deriving DecidableEq

inductive Answer where
  | response (status : Nat) (body : Body)
  | panic
  deriving DecidableEq

def apiErr (status : Nat) (message : String) : Answer := .response status (.error message)

abbrev Handler := Systems.Handler Command Command.Reply Answer

end LetsEmbed
