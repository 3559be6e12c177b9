import LetsEmbed.Platform
import LetsEmbed.Proofs.AuthRules
import LetsEmbed.Proofs.GatewayMetering
import LetsEmbed.Proofs.PaymentsEarned

/-! What each request of the deployed system may ask for after which exchanges, and what
its answers say of them. -/

namespace LetsEmbed.Platform
open Account Auth Payments Systems

abbrev History := List (Exchange Command Command.Reply)

def BanForm.bans (form : BanForm) : Bool := decide (form.banned ≠ 0)

/-- The request came with a session of this account. -/
def Authenticated (gs : Gateway.State) (r : Gateway.Request) (past : History) (claims : Gateway.SessionClaims) : Prop :=
  ∃ token now, r.cookies Gateway.sessionCookie = some token ∧ ⟨.gateway .now, now⟩ ∈ past ∧
    gs.jwtVerify token now = some claims

/-- What the request is charged for was charged and answered with 200. -/
def Covered (gs : Gateway.State) (r : Gateway.Request) (past : History) : Prop :=
  ∃ claims, Authenticated gs r past claims ∧ ∀ req, Gateway.chargeFor gs r = some req →
    (⟨.gateway (.charge claims.sub req), some 200⟩ : Exchange Command Command.Reply) ∈ past

/-- An account that is there. -/
def Known (past : History) (address : String) : Prop :=
  ∃ found, (⟨.user (.selectUser address), .ok (some found)⟩ : Exchange Command Command.Reply) ∈ past

/-- The object took the form's value. -/
def Enforced (past : History) (address : String) (banned : Bool) : Prop :=
  ∃ reply, status reply = some 200 ∧ (⟨.doBan address banned, some reply⟩ : Exchange Command Command.Reply) ∈ past

/-- A credit is an approved form's, or a top-up's that has the evidence for it. -/
def Funded (st : SiweState) (request : Request) (past : History) (address : String) (req : CreditReq) : Prop :=
  (∃ email form uuid, request = .credit (some email) form uuid ∧ address = form.address ∧
    req = ⟨form.points, creditKey form uuid, form.reason⟩) ∨
  ∃ topup earlier spec earned, request = .worker (.other (.topup (some address) topup)) ∧
    past = earlier.map (Program.lift Command.user) ∧ resolveSpec st.toAppState topup = .ok spec ∧
    Evidence earlier st.toAppState address spec earned ∧ req = ⟨earned.points, "tx:" ++ earned.hash, "topup"⟩

def mayAsk (gs : Gateway.State) (st : SiweState) (request : Request) (past : History) : Command → Prop
  | .user (.doCredit address req) => Funded st request past address req
  | .gateway (.send out) => ∃ r, request = .gateway r ∧ out = Gateway.outgoing gs r ∧ Covered gs r past
  | .doBan address banned =>
    ∃ approver form, request = .ban approver form ∧ address = form.address ∧ banned = form.bans ∧ Known past address
  | .updateBanned address banned =>
    ∃ approver form, request = .ban approver form ∧ address = form.address ∧ banned = form.bans ∧ Enforced past address banned
  | _ => True

/-- What every other handler of the user worker keeps to. -/
def Uncrediting : LetsEmbed.Command → Prop
  | .doCredit .. => False
  | _ => True

/-- Signing in ends with a session only where the mirror was read as not banned. -/
def Admitted (past : List (Exchange LetsEmbed.Command LetsEmbed.Command.Reply)) (answer : LetsEmbed.Answer) : Prop :=
  ∀ code address issued expires, answer = .response code (.session address issued expires) →
    ∃ banned, (⟨.selectBanned address, .ok banned⟩ : Exchange LetsEmbed.Command LetsEmbed.Command.Reply) ∈ past ∧
      banned.getD false = false

section Logins
variable {past : List (Exchange LetsEmbed.Command LetsEmbed.Command.Reply)}

/-- The common end of both logins. -/
theorem admitted_rule (addr : String) (now : Nat) : (do
      match ← Handler.perform (LetsEmbed.Command.selectBanned addr) with
      | .error _ => throw SolanaLink.internalError
      | .ok banned => do
        require (!banned.getD false) (throw (apiErr 403 "account banned"))
        match ← Handler.perform (LetsEmbed.Command.doInit addr) with
        | .error _ => throw SolanaLink.internalError
        | .ok _ => pure (.response 200 (.session addr now (now + Config.sessionTtlSecs))) : LetsEmbed.Handler LetsEmbed.Answer).wp
    (Program.recording fun _ => Uncrediting) Admitted (fun _ _ => True) past := by
  apply Handler.wp_ask trivial
  intro banned
  split
  · exact (Handler.wp_throw _).mpr trivial
  next found =>
    refine (Handler.wp_bind _ _).mpr (require_rule (fun free => ?_) fun _ => (Handler.wp_throw _).mpr trivial)
    apply Handler.wp_ask trivial
    intro started
    split
    · exact (Handler.wp_throw _).mpr trivial
    · refine (Handler.wp_pure _).mpr fun code address issued expires same => ?_
      cases same
      exact ⟨found, List.mem_cons_of_mem _ List.mem_cons_self, Bool.not_eq_true' _ ▸ free⟩

theorem verifySolana_admits (st : AppState) (req : SiwsReq) :
    (verifySolana st req).wp (Program.recording fun _ => Uncrediting) Admitted (fun _ _ => True) past := by
  refine (Handler.wp_bind _ _).mpr (require_rule (fun _ => ?_) fun _ => (Handler.wp_throw _).mpr trivial)
  refine (Handler.wp_bind _ _).mpr (useNonce_rule (fun _ _ => ⟨trivial, trivial⟩) fun _ => ?_)
  refine (Handler.wp_bind _ _).mpr (require_rule (fun _ => ?_) fun _ => (Handler.wp_throw _).mpr trivial)
  apply Handler.wp_ask trivial
  intro now
  apply Handler.wp_ask trivial
  intro owner
  split
  · exact (Handler.wp_throw _).mpr trivial
  · exact (Handler.wp_throw _).mpr trivial
  · apply Handler.wp_ask trivial
    intro created
    split
    · exact (Handler.wp_throw _).mpr trivial
    · exact admitted_rule req.solanaAddress now

theorem verify_admits (st : SiweState) (req : VerifyReq) :
    (verify st req).wp (Program.recording fun _ => Uncrediting) Admitted (fun _ _ => True) past := by
  rw [verify]
  split
  · exact (Handler.wp_throw _).mpr trivial
  next msg parsed =>
    refine (Handler.wp_bind _ _).mpr (require_rule (fun _ => ?_) fun _ => (Handler.wp_throw _).mpr trivial)
    refine (Handler.wp_bind _ _).mpr (require_rule (fun _ => ?_) fun _ => (Handler.wp_throw _).mpr trivial)
    refine (Handler.wp_bind _ _).mpr (require_rule (fun _ => ?_) fun _ => (Handler.wp_throw _).mpr trivial)
    apply Handler.wp_ask trivial
    intro now
    split
    · exact (Handler.wp_throw _).mpr trivial
    · refine (Handler.wp_bind _ _).mpr (useNonce_rule (fun _ _ => ⟨trivial, trivial⟩) fun _ => ?_)
      split
      · exact (Handler.wp_throw _).mpr trivial
      next addr recovered =>
        refine (Handler.wp_bind _ _).mpr (require_rule (fun _ => ?_) fun _ => (Handler.wp_throw _).mpr trivial)
        apply Handler.wp_ask trivial
        intro created
        split
        · exact (Handler.wp_throw _).mpr trivial
        · exact admitted_rule addr now

end Logins

/-- What an answer says of the exchanges before it. -/
def Ends (request : Request) (past : History) (outcome : Outcome) : Prop :=
  match request, outcome with
  | .credit _ form uuid, .ok _ => ∃ resp, (⟨.user (.doCredit form.address ⟨form.points, creditKey form uuid, form.reason⟩), .ok resp⟩ :
      Exchange Command Command.Reply) ∈ past
  | .ban _ form, .ok _ => (⟨.updateBanned form.address form.bans, .ok ()⟩ : Exchange Command Command.Reply) ∈ past
  | .worker (.verify _), .ok (.user answer) | .worker (.other (.verifySolana _)), .ok (.user answer) =>
    ∀ code address issued expires, answer = .response code (.session address issued expires) →
      ∃ banned, (⟨.user (.selectBanned address), .ok banned⟩ : Exchange Command Command.Reply) ∈ past ∧ banned.getD false = false
  | _, _ => True

section Handlers
variable {gs : Gateway.State} {st : SiweState} {request : Request} {past : History} {exit : History → Answer → Prop}

theorem requireApprover_rule {ok : History → Unit → Prop} {approver : Option String}
    (next : ∀ email, approver = some email → ok past ()) (fails : ∀ late answer, exit late answer) :
    (requireApprover approver).wp (Program.recording (mayAsk gs st request)) ok exit past := by
  cases approver with
  | none => exact (Handler.wp_throw _).mpr (fails _ _)
  | some email => exact (Handler.wp_pure ()).mpr (next email rfl)

theorem validateFormAddress_rule {ok : History → Unit → Prop} {address : String}
    (next : ∀ found, ok (⟨.user (.selectUser address), .ok (some found)⟩ :: past) ()) (fails : ∀ late answer, exit late answer) :
    (validateFormAddress address).wp (Program.recording (mayAsk gs st request)) ok exit past := by
  rw [validateFormAddress]
  split
  · apply Handler.wp_ask trivial
    intro reply
    split
    next found => exact (Handler.wp_pure ()).mpr (next found)
    · exact (Handler.wp_throw _).mpr (fails _ _)
    · exact (Handler.wp_throw _).mpr (fails _ _)
  · exact (Handler.wp_throw _).mpr (fails _ _)

theorem credit_rule (approver : Option String) (form : CreditForm) (uuid : String) :
    (credit approver form uuid).wp (Program.recording (mayAsk gs st (.credit approver form uuid)))
      (fun late _ => ∃ resp, (⟨.user (.doCredit form.address ⟨form.points, creditKey form uuid, form.reason⟩), .ok resp⟩ :
        Exchange Command Command.Reply) ∈ late)
      (fun _ _ => True) past := by
  refine (Handler.wp_bind _ _).mpr (requireApprover_rule (fun email approved => ?_) fun _ _ => trivial)
  refine (Handler.wp_bind _ _).mpr (validateFormAddress_rule (fun found => ?_) fun _ _ => trivial)
  apply Handler.wp_ask
  · exact .inl ⟨email, form, uuid, by rw [approved], rfl, rfl⟩
  intro reply
  split
  · exact (Handler.wp_throw _).mpr trivial
  next resp => exact (Handler.wp_pure _).mpr ⟨resp, List.mem_cons_self⟩

theorem ban_rule (approver : Option String) (form : BanForm) :
    (ban approver form).wp (Program.recording (mayAsk gs st (.ban approver form)))
      (fun late _ => (⟨.updateBanned form.address form.bans, .ok ()⟩ : Exchange Command Command.Reply) ∈ late)
      (fun _ _ => True) past := by
  refine (Handler.wp_bind _ _).mpr (requireApprover_rule (fun _ _ => ?_) fun _ _ => trivial)
  refine (Handler.wp_bind _ _).mpr (validateFormAddress_rule (fun found => ?_) fun _ _ => trivial)
  apply Handler.wp_ask
  · exact ⟨approver, form, rfl, rfl, rfl, found, List.mem_cons_self⟩
  intro reply
  split
  next accepted =>
    obtain ⟨answer, replied, code⟩ := Option.bind_eq_some_iff.mp accepted
    apply Handler.wp_ask
    · exact ⟨approver, form, rfl, rfl, rfl, answer, code, replied ▸ List.mem_cons_self⟩
    intro mirrored
    split
    · exact (Handler.wp_pure _).mpr List.mem_cons_self
    · exact (Handler.wp_throw _).mpr trivial
  · exact (Handler.wp_throw _).mpr trivial

theorem planPassthrough_rule (addr : String) (change : PlanChange) :
    (planPassthrough addr change).wp (Program.recording (mayAsk gs st request)) (fun _ _ => True) (fun _ _ => True) past := by
  apply Handler.wp_ask trivial
  intro reply
  split
  · exact (Handler.wp_throw _).mpr trivial
  next found =>
    split
    · apply Handler.wp_ask trivial
      intro mirrored
      exact (Handler.wp_pure _).mpr trivial
    · exact (Handler.wp_pure _).mpr trivial

theorem changePlan_rule (session : Option String) (change : PlanChange) :
    (changePlan session change).wp (Program.recording (mayAsk gs st request)) (fun _ _ => True) (fun _ _ => True) past := by
  cases session with
  | none => exact (Handler.wp_throw _).mpr trivial
  | some addr => exact planPassthrough_rule addr change

theorem me_rule (session : Option String) :
    (me session).wp (Program.recording (mayAsk gs st request)) (fun _ _ => True) (fun _ _ => True) past := by
  cases session with
  | none => exact (Handler.wp_throw _).mpr trivial
  | some addr =>
    apply Handler.wp_ask trivial
    intro reply
    split
    · split
      · exact (Handler.wp_pure _).mpr trivial
      · exact (Handler.wp_throw _).mpr trivial
    · exact (Handler.wp_throw _).mpr trivial

end Handlers

section Launch
variable {gs : Gateway.State} {st : SiweState}

theorem within_user {request : Request} {program : Program LetsEmbed.Command LetsEmbed.Command.Reply (Except LetsEmbed.Answer LetsEmbed.Answer)}
    {asks : List (Exchange LetsEmbed.Command LetsEmbed.Command.Reply) → LetsEmbed.Command → Prop}
    {post : List (Exchange LetsEmbed.Command LetsEmbed.Command.Reply) → Except LetsEmbed.Answer LetsEmbed.Answer → Prop}
    (holds : program.wp (Program.recording asks) post [])
    (funded : ∀ past address req, asks past (.doCredit address req) →
      Funded st request (past.map (Program.lift Command.user)) address req)
    (ends : ∀ past result, post past result → Ends request (past.map (Program.lift Command.user)) (outcome .user result)) :
    (outcome Answer.user <$> program.within Command.user).wp (Program.recording (mayAsk gs st request)) (Ends request) [] := by
  rw [Program.wp_map]
  refine Program.wp_within_start Command.user (mayAsk gs st request) (Program.wp_mono (Program.wp_recording_mono holds ?_) ends)
  intro past command asked
  cases command with
  | doCredit address req => exact funded past address req asked
  | _ => trivial

theorem within_gateway (r : Gateway.Request) :
    (outcome Answer.gateway <$> (Gateway.gateway gs r).run.within Command.gateway).wp
      (Program.recording (mayAsk gs st (.gateway r))) (Ends (.gateway r)) [] := by
  rw [Program.wp_map]
  have rule := @Gateway.gateway_rule gs r (fun past command =>
    mayAsk gs st (.gateway r) (past.map (Program.lift Command.gateway)) (.gateway command)) (fun _ => trivial) fun _ _ => trivial
  refine Program.wp_within_start Command.gateway (mayAsk gs st (.gateway r)) ?_
  apply Program.wp_mono (Handler.run_of_wp (rule.mpr (.inr fun token cookie now claims verified => ?_)))
  · intro past result _
    cases result <;> trivial
  · refine ⟨fun free => ?_, fun req due => ⟨trivial, ?_⟩⟩
    · refine ⟨r, rfl, rfl, claims, ⟨token, now, cookie, List.mem_cons_self, verified⟩, fun req due => ?_⟩
      rw [free] at due
      cases due
    · refine ⟨r, rfl, rfl, claims, ⟨token, now, cookie, List.mem_cons_of_mem _ List.mem_cons_self, verified⟩, fun other due' => ?_⟩
      rw [due, Option.some.injEq] at due'
      rw [← due']
      exact List.mem_cons_self

theorem launch_rule (gs : Gateway.State) (st : SiweState) (request : Request) :
    (launch gs st request).wp (Program.recording (mayAsk gs st request)) (Ends request) [] := by
  have anything {post : History → Outcome → Prop} {program : Program Command Command.Reply Outcome} {past : History}
      (holds : program.wp (Program.recording (mayAsk gs st request)) post past) (ends : ∀ late outcome, Ends request late outcome) :
      program.wp (Program.recording (mayAsk gs st request)) (Ends request) past := Program.wp_mono holds fun late outcome _ => ends late outcome
  cases request with
  | gateway r => exact within_gateway r
  | credit approver form uuid =>
    apply Program.wp_mono (Handler.run_of_wp (credit_rule approver form uuid))
    intro past result holds
    cases result with
    | ok answer => exact holds
    | error answer => trivial
  | plan session change => exact anything (Handler.run_of_wp (changePlan_rule session change)) fun _ _ => trivial
  | me session => exact anything (Handler.run_of_wp (me_rule session)) fun _ _ => trivial
  | alarm address => exact ⟨trivial, fun _ _ => trivial⟩
  | ban approver form =>
    apply Program.wp_mono (Handler.run_of_wp (ban_rule approver form))
    intro past result holds
    cases result with
    | ok answer => exact holds
    | error answer => trivial
  | worker arrival =>
    have admits {past : List (Exchange LetsEmbed.Command LetsEmbed.Command.Reply)} {answer : LetsEmbed.Answer}
        (admitted : Admitted past answer) (code : Nat) (address : String) (issued expires : Nat)
        (same : answer = .response code (.session address issued expires)) :
        ∃ banned, (⟨.user (.selectBanned address), .ok banned⟩ : Exchange Command Command.Reply) ∈
          past.map (Program.lift Command.user) ∧ banned.getD false = false := by
      obtain ⟨banned, member, free⟩ := admitted code address issued expires same
      exact ⟨banned, List.mem_map.mpr ⟨_, member, rfl⟩, free⟩
    have quiet {request : Request} (past : List (Exchange LetsEmbed.Command LetsEmbed.Command.Reply)) (address : String) (req : CreditReq)
        (asked : Uncrediting (.doCredit address req)) : Funded st request (past.map (Program.lift Command.user)) address req := asked.elim
    cases arrival with
    | verify req =>
      refine within_user (Handler.run_of_wp (verify_admits st req)) quiet fun past result holds => ?_
      cases result with
      | ok answer => exact admits holds
      | error answer => trivial
    | other request =>
      cases request with
      | verifySolana req =>
        refine within_user (Handler.run_of_wp (verifySolana_admits st.toAppState req)) quiet fun past result holds => ?_
        cases result with
        | ok answer => exact admits holds
        | error answer => trivial
      | topup session req =>
        refine within_user (Handler.run_of_wp (topup_justified st.toAppState session req)) ?_ fun past result _ => ?_
        · rintro past address credit ⟨spec, earned, _, rfl, resolved, _, backed, rfl⟩
          exact .inr ⟨req, past, spec, earned, rfl, rfl, resolved, backed, rfl⟩
        · cases result <;> trivial
      | link session req =>
        have rule : (SolanaLink.link st.toAppState session req).wp (Program.recording fun _ => Uncrediting) (fun _ _ => True)
            (fun _ _ => True) [] :=
          link_rule (fun _ _ => ⟨trivial, trivial⟩) (fun _ => ⟨trivial, trivial⟩) (fun _ _ _ _ => trivial) fun _ => trivial
        refine within_user (Handler.run_of_wp rule) quiet fun past result _ => ?_
        cases result <;> trivial
      | unlink session =>
        have rule : (SolanaLink.unlink session).wp (Program.recording fun _ => Uncrediting) (fun _ _ => True) (fun _ _ => True) [] :=
          unlink_rule (fun _ _ => trivial) fun _ => trivial
        refine within_user (Handler.run_of_wp rule) quiet fun past result _ => ?_
        cases result <;> trivial

end Launch

end LetsEmbed.Platform
