import LetsEmbed.Config
import LetsEmbed.Rust
import LetsEmbed.Systems.Machine

/-! The per-user `UserAccount` Durable Object (`user_worker/src/account_do.rs`).
Every request and the alarm run atomically on the object's storage. Clock
readings come from a JavaScript date, far below the width of `u64`, and the
usage counters grow by at most ten a request; only balances, which take
arbitrary `i64` credits, are reduced to their machine width. What the worker crate
makes of integers beyond 2^53 - 1, which it neither reads from a request or from
storage nor writes there, is left out here. -/

namespace LetsEmbed.Account
open Config Rust

inductive ChargeKind where
  | image
  | video
  | search
  | embedSearch
  deriving DecidableEq, Repr

structure ChargeReq where
  path : String
  kind : ChargeKind

structure ChargeResp where
  charged : Bool
  cost : Int
  balance : Int
  viewsRemaining : Option Int
  searchesRemaining : Option Int
  windowReset : Nat
  deriving DecidableEq, Repr

structure CreditReq where
  points : Int
  key : String
  reason : String
  deriving DecidableEq

structure BalanceResp where
  balance : Int
  applied : Bool
  deriving DecidableEq, Repr

structure StatusResp where
  address : String
  balance : Int
  plan : Option String
  periodEnd : Nat
  viewsRemaining : Option Int
  searchesRemaining : Option Int
  windowReset : Nat
  banned : Bool
  totalViews : Int
  deriving DecidableEq, Repr

def viewCost : ChargeKind → Int
  | .image => costImageView
  | .video => costVideoView
  | .search => costSearch
  | .embedSearch => costEmbedSearch

/-- First-seen times by path: one day's dedupe map. -/
abbrev SeenMap := String → Option Nat

def isRecentView (path : String) (now : Nat) (maps : List SeenMap) : Bool :=
  let cutoff := now - dedupeWindowSecs -- saturating, as the source has it
  maps.any fun m => (m path).any fun firstSeen => decide (firstSeen > cutoff)

def shouldRoll (winStart : Option Nat) (now : Nat) : Bool :=
  match winStart with
  | none => true
  | some start => decide (now ≥ start + windowSecs)

inductive ChargeSource where
  | freeUnlimited
  | window
  | balance
  | refuse
  deriving DecidableEq, Repr

def payAsYouGo (balance cost : Int) : ChargeSource :=
  if balance ≥ cost then .balance else .refuse

def decideCharge (plan : Option Plan) (active : Bool) (kind : ChargeKind)
    (winViews winSearch balance cost : Int) : ChargeSource :=
  match active, plan with
  | true, some plan =>
    match kind with
    | .image | .video | .embedSearch =>
      match plan.viewsPerWindow with
      | none => .freeUnlimited
      | some limit => if winViews + cost ≤ limit then .window else payAsYouGo balance cost
    | .search => if winSearch < plan.searchesPerWindow then .window else payAsYouGo balance cost
  | _, _ => payAsYouGo balance cost

def viewsRemaining (plan : Option Plan) (active : Bool) (winViews : Int) : Option Int :=
  if !active then none
  else (plan.bind (·.viewsPerWindow)).map fun limit => max (limit - winViews) 0

def searchesRemaining (plan : Option Plan) (active : Bool) (winSearch : Int) : Option Int :=
  if !active then none
  else plan.map fun p => max (p.searchesPerWindow - winSearch) 0

/-- The unspent fraction of the price, rounded toward zero. -/
def proratedRefund (pricePoints : Int) (periodSecs remainingSecs : Nat) : Int :=
  if periodSecs = 0 then 0
  else
    let remaining := min remainingSecs periodSecs
    (pricePoints * remaining).tdiv periodSecs

def windowReset (active : Bool) (winStart : Option Nat) (now : Nat) : Nat :=
  match winStart with
  | some start => if active && decide (now < start + windowSecs) then start + windowSecs else 0
  | none => 0

/-- The object's storage, one field per key. `seen:{day}` and `credit:{key}`
are families of keys, and `alarm` is the pending alarm in epoch seconds. -/
structure Storage where
  init : Option Bool := none
  address : Option String := none
  balance : Option Int := none
  plan : Option String := none
  periodEnd : Option Nat := none
  winStart : Option Nat := none
  winViews : Option Int := none
  winSearch : Option Int := none
  totalViews : Option Int := none
  banned : Option Bool := none
  seen : Nat → Option SeenMap := fun _ => none
  credit : String → Option Bool := fun _ => none
  alarm : Option Nat := none

def Storage.getBalance (s : Storage) : Int := s.balance.getD 0
def Storage.getPeriodEnd (s : Storage) : Nat := s.periodEnd.getD 0
def Storage.isBanned (s : Storage) : Bool := s.banned.getD false

/-- First touch of a brand-new account: the free points are stored. -/
def ensureInit (s : Storage) : Storage :=
  if s.init.isNone then { s with balance := some freeGrantPoints, init := some true } else s

def planActive (s : Storage) (now : Nat) : Bool :=
  s.plan.isSome && decide (s.getPeriodEnd > now)

structure WindowFields where
  viewsRemaining : Option Int
  searchesRemaining : Option Int
  windowReset : Nat
  deriving DecidableEq, Repr

/-- The figures of the current window from stored state, without rolling it. -/
def windowFields (s : Storage) (active : Bool) (plan : Option Plan) (now : Nat) : WindowFields :=
  let opened := active && !shouldRoll s.winStart now
  let winViews := if opened then s.winViews.getD 0 else 0
  let winSearch := if opened then s.winSearch.getD 0 else 0
  ⟨viewsRemaining plan active winViews, searchesRemaining plan active winSearch,
    windowReset active s.winStart now⟩

def statusResp (s : Storage) (now : Nat) : StatusResp :=
  let active := planActive s now
  let fields := windowFields s active (s.plan.bind Config.plan) now
  { address := s.address.getD ""
    balance := s.getBalance
    plan := s.plan
    periodEnd := if active then s.getPeriodEnd else 0
    viewsRemaining := fields.viewsRemaining
    searchesRemaining := fields.searchesRemaining
    windowReset := fields.windowReset
    banned := s.isBanned
    totalViews := s.totalViews.getD 0 }

/-- What a request is answered. `panic` stands for an aborted worker. -/
inductive Reply where
  | charge (status : Nat) (resp : ChargeResp)
  | balance (resp : BalanceResp)
  | status (resp : StatusResp)
  | error (status : Nat) (message : String)
  | ok
  | panic (message : String)
  deriving DecidableEq, Repr

def init (s : Storage) (now : Nat) (address : String) : Reply × Storage :=
  let s := { ensureInit s with address := some address }
  (.status (statusResp s now), s)

structure Window where
  start : Option Nat
  views : Int
  search : Int
  dirty : Bool

/-- The stored window, rolled when the plan is active and the window elapsed. -/
def rollWindow (s : Storage) (active : Bool) (now : Nat) : Window :=
  if active && shouldRoll s.winStart now then ⟨some now, 0, 0, true⟩
  else ⟨s.winStart, s.winViews.getD 0, s.winSearch.getD 0, false⟩

def Window.draw (w : Window) (kind : ChargeKind) (cost : Int) : Window :=
  match kind with
  | .search => { w with search := w.search + 1, dirty := true }
  | .image | .video | .embedSearch => { w with views := w.views + cost, dirty := true }

def Window.resp (w : Window) (plan : Option Plan) (active charged : Bool) (cost balance : Int) (now : Nat) :
    ChargeResp :=
  ⟨charged, cost, balance, viewsRemaining plan active w.views, searchesRemaining plan active w.search,
    windowReset active w.start now⟩

/-- The writes every recorded charge makes: the day maps, balance and count. -/
def recordView (s : Storage) (now : Nat) (path : String) (balance : Int) : Storage :=
  let day := now / 86_400
  let seen := if (s.seen day).isNone then Function.update s.seen (u64Sub day 2) none else s.seen
  let todayMap := Function.update ((s.seen day).getD fun _ => none) path (some now)
  { s with
    seen := Function.update seen day (some todayMap)
    balance := some balance
    totalViews := some (s.totalViews.getD 0 + 1) }

def recordCharge (s : Storage) (now : Nat) (req : ChargeReq) (plan : Option Plan) (active : Bool)
    (w : Window) (balance : Int) : Reply × Storage :=
  let s := recordView s now req.path balance
  let reply := Reply.charge 200 (w.resp plan active true (viewCost req.kind) balance now)
  if w.dirty then
    match w.start with
    | none => (.panic "rolled/active window has a start", s)
    | some start =>
      (reply, { s with winStart := some start, winViews := some w.views, winSearch := some w.search })
  else (reply, s)

def charge (s : Storage) (now : Nat) (req : ChargeReq) : Reply × Storage :=
  let s := ensureInit s
  if s.isBanned then (.error 403 "banned", s)
  else
    let day := now / 86_400
    let todayMap := (s.seen day).getD fun _ => none
    let yesterday := (s.seen (u64Sub day 1)).getD fun _ => none
    let cost := viewCost req.kind
    let balance := s.getBalance
    let active := planActive s now
    let plan := if active then s.plan.bind Config.plan else none
    if isRecentView req.path now [todayMap, yesterday] then
      let fields := windowFields s active plan now
      (.charge 200 ⟨false, cost, balance, fields.viewsRemaining, fields.searchesRemaining,
        fields.windowReset⟩, s)
    else
      let w := rollWindow s active now
      let source := decideCharge plan active req.kind w.views w.search balance cost
      if source = .refuse then (.charge 402 (w.resp plan active false cost balance now), s)
      else
        match source with
        | .freeUnlimited => recordCharge s now req plan active w balance
        | .window => recordCharge s now req plan active (w.draw req.kind cost) balance
        | .balance => recordCharge s now req plan active w (i64 (balance - cost))
        | .refuse => (.panic "handled above", s)

def credit (s : Storage) (req : CreditReq) : Reply × Storage :=
  let balance := s.getBalance
  if (s.credit req.key).isSome then (.balance ⟨balance, false⟩, s)
  else
    let balance := max (i64 (balance + req.points)) 0
    (.balance ⟨balance, true⟩,
      { s with balance := some balance, credit := Function.update s.credit req.key (some true) })

def unusedRefund (s : Storage) (now : Nat) : Int :=
  if planActive s now then
    match s.plan.bind Config.plan with
    | some current => proratedRefund current.pricePoints current.periodSecs (s.getPeriodEnd - now)
    | none => 0
  else 0

def subscribe (s : Storage) (now : Nat) (planId : String) : Reply × Storage :=
  match Config.plan planId with
  | none => (.error 400 "unknown plan", s)
  | some target =>
    let refund := unusedRefund s now
    let balance := s.getBalance
    let netCost := target.pricePoints - refund
    if netCost > 0 ∧ balance < netCost then (.error 402 "insufficient balance", s)
    else
      let newEnd := now + target.periodSecs
      let s := { s with
        balance := some (max (i64 (balance - netCost)) 0)
        plan := some target.id
        periodEnd := some newEnd
        winStart := some now
        winViews := some 0
        winSearch := some 0
        alarm := some (now + (newEnd - now)) }
      (.status (statusResp s now), s)

/-- `disarmed` says whether `delete_alarm`, whose result is ignored, worked. -/
def unsubscribe (s : Storage) (now : Nat) (disarmed : Bool) : Reply × Storage :=
  let s := if planActive s now then
      { s with balance := some (i64 (s.getBalance + unusedRefund s now)) }
    else s
  let s := { s with
    plan := none
    periodEnd := none
    winStart := none
    winViews := none
    winSearch := none
    alarm := if disarmed then none else s.alarm }
  (.status (statusResp s now), s)

def ban (s : Storage) (now : Nat) (banned : Bool) : Reply × Storage :=
  let s := { s with banned := some banned }
  (.status (statusResp s now), s)

/-- The alarm handler; a firing consumes the pending alarm. -/
def alarm (s : Storage) (now : Nat) : Reply × Storage :=
  let s := { s with alarm := none }
  if s.plan.isNone then (.ok, s)
  else if s.getPeriodEnd > now then (.ok, { s with alarm := some (now + (s.getPeriodEnd - now)) })
  else (.ok, { s with plan := none, winStart := none, winViews := none, winSearch := none })

inductive Op where
  | init (address : String)
  | charge (req : ChargeReq)
  | credit (req : CreditReq)
  | status
  | subscribe (plan : String)
  | unsubscribe (disarmed : Bool)
  | ban (banned : Bool)
  | alarm

structure Input where
  now : Nat
  op : Op

def step (s : Storage) (i : Input) : Reply × Storage :=
  match i.op with
  | .init address => init s i.now address
  | .charge req => charge s i.now req
  | .credit req => credit s req
  | .status => (.status (statusResp s i.now), s)
  | .subscribe plan => subscribe s i.now plan
  | .unsubscribe disarmed => unsubscribe s i.now disarmed
  | .ban banned => ban s i.now banned
  | .alarm => alarm s i.now

def account : Systems.Machine Storage Input Reply := ⟨{}, step⟩

abbrev Event := Systems.Event Storage Input Reply
abbrev Guard := Systems.Guard Storage Input Reply

end LetsEmbed.Account
