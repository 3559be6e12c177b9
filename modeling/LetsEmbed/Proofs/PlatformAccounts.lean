import LetsEmbed.Platform
import LetsEmbed.Proofs.AccountDedupe
import LetsEmbed.Proofs.ServicesSteps

/-! Each account object of the deployed system goes through a run of its own, whatever is
asked of the others in between. -/

namespace LetsEmbed.Platform
open Account Systems

variable {w : World} {command : Command} {choice : Choice} {address : String}

/-- What a command is for an account object. -/
def Command.operation (choice : Choice) : Command → Option (String × Op)
  | .user (.doInit address) => some (address, .init address)
  | .user (.doCredit address req) => some (address, .credit req)
  | .gateway (.charge sub req) => some (sub, .charge req)
  | .doStatus address => some (address, .status)
  | .doPlan address (.subscribe plan) => some (address, .subscribe plan)
  | .doPlan address .unsubscribe => some (address, .unsubscribe choice.disarmed)
  | .doBan address banned => some (address, .ban banned)
  | .doAlarm address => some (address, .alarm)
  | _ => none

/-- What reached this address, if anything did. -/
def reaches (address : String) (command : Command) (choice : Choice) : Option Op :=
  if choice.fault = .refused then none
  else (command.operation choice).bind fun (target, op) => if target = address then some op else none

theorem reaches_idle (idle : command.operation choice = none) : reaches address command choice = none := by
  rw [reaches, idle]
  exact ite_self none

theorem setAccount_accounts (services : LetsEmbed.World) (target : String) (storage : Storage) :
    (services.setAccount target storage).accounts address = if target = address then storage else services.accounts address := by
  rw [LetsEmbed.World.setAccount]
  dsimp only
  rw [Function.update_apply]
  exact if_congr eq_comm rfl rfl

theorem call_accounts {α : Type} (fault : Fault) (target : String) (result : Account.Reply × Storage)
    (answer : Account.Reply → Option α) : (call fault w target result answer).2.services.accounts address =
      if fault ≠ .refused ∧ target = address then result.2 else w.services.accounts address := by
  cases fault with
  | refused => rfl
  | none | lost =>
    rw [call]
    dsimp only
    rw [setAccount_accounts]
    exact if_congr (and_iff_right (by decide)).symm rfl rfl

theorem write_services (fault : Fault) (late : World) (same : late.services.accounts = w.services.accounts) :
    (write fault w late).2.services.accounts = w.services.accounts := by
  cases fault with
  | none | lost => exact same
  | refused => rfl

theorem services_accounts {command : LetsEmbed.Command} (idle : (Command.user command).operation choice = none) :
    (LetsEmbed.serve w.services command ⟨choice.fault, choice.now, choice.fetched⟩).2.accounts address =
      w.services.accounts address := by
  rcases serve_account w.services command ⟨choice.fault, choice.now, choice.fetched⟩ address with same | ⟨rfl, _⟩ | ⟨req, rfl, _⟩
  · exact same
  · cases idle
  · cases idle

/-- An account object takes one step of its own, or none. -/
theorem serve_accounts (w : World) (command : Command) (choice : Choice) (address : String) :
    (serve w command choice).2.services.accounts address =
      match reaches address command choice with
      | some op => (step (w.services.accounts address) ⟨choice.now, op⟩).2
      | none => w.services.accounts address := by
  have called {α : Type} (target : String) (op : Op) (answer : Account.Reply → Option α) :
      (call choice.fault w target (step (w.services.accounts target) ⟨choice.now, op⟩) answer).2.services.accounts address =
        match (if choice.fault = .refused then none else if target = address then some op else none : Option Op) with
        | some op => (step (w.services.accounts address) ⟨choice.now, op⟩).2
        | none => w.services.accounts address := by
    rw [call_accounts]
    by_cases refused : choice.fault = .refused
    · rw [if_pos refused, if_neg fun reached => reached.1 refused]
    · by_cases own : target = address
      · subst own
        rw [if_neg refused, if_pos rfl, if_pos ⟨refused, rfl⟩]
      · rw [if_neg refused, if_neg own, if_neg fun reached => own reached.2]
  have served {α : Type} (target : String) (op : Op) (answer : Account.Reply → Except Failure α) :
      (choice.fault.apply w.services (answer (step (w.services.accounts target) ⟨choice.now, op⟩).1,
          w.services.setAccount target (step (w.services.accounts target) ⟨choice.now, op⟩).2)).2.accounts address =
        match (if choice.fault = .refused then none else if target = address then some op else none : Option Op) with
        | some op => (step (w.services.accounts address) ⟨choice.now, op⟩).2
        | none => w.services.accounts address := by
    by_cases refused : choice.fault = .refused
    · rw [if_pos refused, refused]
      rfl
    · rw [if_neg refused, Fault.apply_of_reached refused, setAccount_accounts]
      by_cases own : target = address
      · subst own
        rw [if_pos rfl, if_pos rfl]
      · rw [if_neg own, if_neg own]
  cases command with
  | gateway command =>
    cases command with
    | charge sub req => exact called sub (.charge req) status
    | now | forwardUser | send =>
      rw [reaches_idle rfl]
      rfl
  | doStatus target => exact called target .status some
  | doBan target banned => exact called target (.ban banned) some
  | doAlarm target => exact called target .alarm some
  | doPlan target change =>
    cases change with
    | subscribe plan => exact called target (.subscribe plan) some
    | unsubscribe => exact called target (.unsubscribe choice.disarmed) some
  | updatePlan target plan =>
    have same : (w.updatePlan target plan).services.accounts = w.services.accounts := by
      rw [World.updatePlan]
      split <;> rfl
    rw [reaches_idle rfl]
    exact congrFun (write_services choice.fault _ same) address
  | updateBanned target banned =>
    rw [reaches_idle rfl]
    have same : (w.updateBanned target banned).services.accounts = w.services.accounts := rfl
    exact congrFun (write_services choice.fault _ same) address
  | user command =>
    cases known : (Command.user command).operation choice with
    | none =>
      rw [reaches_idle known]
      exact services_accounts known
    | some target =>
      cases command with
      | doInit target => exact served target (.init target) initReply
      | doCredit target req => exact served target (.credit req) creditReply
      | _ => cases known

/-! ## What only one operation writes -/

section Fields
variable {s : Storage} {i : Input}

def Keeps (s t : Storage) : Prop := t.isBanned = s.isBanned ∧ t.credit = s.credit

theorem ensureInit_keeps : Keeps s (ensureInit s) := by
  refine ⟨ensureInit_isBanned s, ?_⟩
  rw [ensureInit]
  split <;> rfl

/-- The flag is written by bans only, the markers by credits only. -/
theorem step_keeps (s : Storage) (i : Input) :
    Keeps s (step s i).2 ∨ (∃ req, i.op = .credit req) ∨ ∃ banned, i.op = .ban banned := by
  obtain ⟨now, op⟩ := i
  cases op with
  | credit req => exact .inr (.inl ⟨req, rfl⟩)
  | ban banned => exact .inr (.inr ⟨banned, rfl⟩)
  | init address => exact .inl ensureInit_keeps
  | status => exact .inl ⟨rfl, rfl⟩
  | charge req =>
    have outcome := charge_outcome s now req
    refine .inl ?_
    change Keeps s (charge s now req).2
    generalize charge s now req = result at outcome ⊢
    cases outcome with
    | banned | deduped | refused => exact ensureInit_keeps
    | @recorded w balance served fresh draws =>
      have kept : Keeps (ensureInit s) ((recordView (ensureInit s) now req.path balance).withWindow w) := by
        rw [Storage.withWindow]
        split <;> exact ⟨rfl, rfl⟩
      exact ⟨kept.1.trans ensureInit_keeps.1, kept.2.trans ensureInit_keeps.2⟩
  | subscribe planId =>
    have outcome := subscribe_outcome s now planId
    refine .inl ?_
    change Keeps s (subscribe s now planId).2
    generalize subscribe s now planId = result at outcome ⊢
    cases outcome <;> exact ⟨rfl, rfl⟩
  | unsubscribe disarmed =>
    refine .inl ⟨(unsubscribe_frame s now disarmed).2.2.2.2, ?_⟩
    change (unsubscribe s now disarmed).2.credit = s.credit
    rw [unsubscribe]
    dsimp only
    split <;> rfl
  | alarm =>
    have outcome := alarm_outcome s now
    refine .inl ?_
    change Keeps s (alarm s now).2
    generalize alarm s now = result at outcome ⊢
    cases outcome <;> exact ⟨rfl, rfl⟩

theorem credit_isBanned (req : CreditReq) : (Account.credit s req).2.isBanned = s.isBanned := by
  rw [Account.credit]
  dsimp only
  split <;> rfl

theorem step_banned (other : ∀ banned, i.op ≠ .ban banned) : (step s i).2.isBanned = s.isBanned := by
  rcases step_keeps s i with kept | ⟨req, credits⟩ | ⟨banned, bans⟩
  · exact kept.1
  · rw [step, credits]
    exact credit_isBanned req
  · exact (other banned bans).elim

theorem step_markers (other : ∀ req, i.op ≠ .credit req) : (step s i).2.credit = s.credit := by
  rcases step_keeps s i with kept | ⟨req, credits⟩ | ⟨banned, bans⟩
  · exact kept.2
  · exact (other req credits).elim
  · rw [step, bans]
    rfl

end Fields

/-! ## The run of one account -/

/-- What a served command was to this account. -/
def happened (address : String) (served : Served) : Option Account.Event :=
  (reaches address served.command served.choice).map fun op =>
    account.event (served.world.services.accounts address) ⟨served.choice.now, op⟩

def history (address : String) (log : List Served) : List Account.Event := log.filterMap (happened address)

theorem happened_eq {served : Served} {op : Op} (known : served.command.operation served.choice = some (address, op))
    (reached : served.choice.fault ≠ .refused) : happened address served =
      some (account.event (served.world.services.accounts address) ⟨served.choice.now, op⟩) := by
  have here : reaches address served.command served.choice = some op := by
    rw [reaches, if_neg reached, known]
    exact if_pos rfl
  rw [happened, here]
  rfl

theorem mem_history {log : List Served} {event : Account.Event} :
    event ∈ history address log ↔ ∃ served ∈ log, happened address served = some event := List.mem_filterMap

variable {gs : Gateway.State} {st : Auth.SiweState} {start : World}
  {past : Pool.Past Command Command.Reply Outcome World Request Choice}
  {pool : Pool Command Command.Reply Outcome World}
  {guard : Systems.Guard (Pool Command Command.Reply Outcome World) (Turn Request Choice)
    (Option (Systems.Served Command Command.Reply World Choice))}

/-- What is true of every run of the account machine is true of each account of the
deployed system. -/
theorem account_run (run : (machine gs st start).Run guard ⟨start, []⟩ past pool) (address : String) :
    account.Run (fun _ _ _ => True) (start.services.accounts address) (history address (Pool.log past))
      (pool.world.services.accounts address) := by
  apply Pool.log_invariant (fun log w => account.Run (fun _ _ _ => True) (start.services.accounts address)
    (history address log) (w.services.accounts address)) run
  · exact .start
  · intro log w command choice running
    rw [serve_accounts, history, List.filterMap_cons, happened]
    dsimp only
    cases reaches address command choice with
    | none => exact running
    | some op => exact running.step trivial

end LetsEmbed.Platform
