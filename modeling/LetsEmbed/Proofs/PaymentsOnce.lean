import LetsEmbed.Proofs.AuthRules
import LetsEmbed.Proofs.PaymentsBurn
import LetsEmbed.Proofs.PaymentsEarned

/-! Each transaction is credited once, however requests interleave. The row of a
hash is held by one request at a time and stays behind a credit whose answer
arrived; a credit whose answer was lost gives the row up, and then only the
marker of the account it reached stands against another credit. -/

namespace LetsEmbed.Worker
open Account Auth Payments Session Solana SolanaLink Systems Text

def feePayer (value : Json) : Option String :=
  (((value.index "transaction").index "message").index "accountKeys").asArray.bind fun keys => pubkeyAt keys 0

theorem verifySolana_feePayer {value : Json} {spec : Config.TokenSpec} {deposit wallet : String} {amount : Nat}
    (credited : Solana.verifySolana value spec deposit wallet = .credited amount) : feePayer value = some wallet := by
  unfold Solana.verifySolana at credited
  dsimp only at credited
  split at credited
  · cases credited
  · split at credited
    · cases credited
    next keys found =>
      split at credited
      · cases credited
      next sender first =>
        split at credited
        · cases credited
        next same =>
          rw [feePayer, found, Option.bind_some, first, Classical.not_not.mp same]

section Environment
variable (st : AppState) (payer : String → String)

/-- The nodes never contradict themselves about who sent a transaction. -/
def HonestExchange : Exchange Command Command.Reply → Prop
  | ⟨.fetch url body, fetched⟩ =>
    (∀ hash tx, url = st.rpcUrl → body = Rates.rpcBody "eth_getTransactionByHash" [.str hash] →
      (Rates.rpcResult fetched).bind decodeTx = some tx → st.toLowercase tx.sender = payer hash) ∧
    ∀ sig value sender, url = st.solRpcUrl → body = transactionBody sig → Rates.rpcResult fetched = some value →
      feePayer value = some sender → sender = payer sig
  | _ => True

def Loses (addr hash : String) : Served → Prop
  | ⟨_, .doCredit other req, choice, _⟩ => other = addr ∧ req.key = "tx:" ++ hash ∧ choice.fault = .lost
  | _ => False

def Finds (addr wallet : String) : Served → Prop
  | ⟨_, .selectSolana other, _, reply⟩ => other = addr ∧ walletOf other reply = some wallet
  | _ => False

/-- The row of a signature is not inserted for an account that has found the
paying wallet, once the response of another account's credit was lost. -/
def Kept (log : List Served) : Served → Prop
  | ⟨_, .insertPayment hash addr .., _, .ok ()⟩ => validSignature hash = true →
      (∃ found ∈ log, Finds addr (payer hash) found) → ∀ lost ∈ log, ∀ other, Loses other hash lost → other = addr
  | _ => True

def Fits (log : List Served) (served : Served) : Prop :=
  HonestExchange st payer ⟨served.command, served.reply⟩ ∧ Kept payer log served

end Environment

/-- The command served credits this key to an account that did not have it. -/
def applies (key : String) (served : Served) : Bool :=
  match served.command with
  | .doCredit addr req => decide (req.key = key) && decide (served.choice.fault ≠ .refused) &&
      ((served.world.accounts addr).credit key).isNone
  | _ => false

def Entitled (payer : String → String) (past : History) (addr hash : String) : Prop :=
  if validSignature hash then Wallet past addr (payer hash) else addr = payer hash

section Discipline
variable (st : AppState) (payer : String → String)

def Allowed (past : History) : Command → Prop
  | .selectSolana _ | .insertPayment .. => phase past = .quiet
  | .deletePending hash => (∃ addr, phase past = .holding addr hash) ∨ phase past = .failed hash
  | .doCredit addr req => ∃ hash, phase past = .holding addr hash ∧ req.key = "tx:" ++ hash ∧
      ((∀ exchange ∈ past, HonestExchange st payer exchange) → Entitled payer past addr hash)
  | _ => True

variable {st payer}

theorem entitled_of_evidence {past : History} {addr : String} {spec : Config.TokenSpec} {text : String} {earned : Earned}
    (named : rowKey st spec text = some earned.hash) (paid : Paid past st addr spec earned.hash earned.amount)
    (honest : ∀ exchange ∈ past, HonestExchange st payer exchange) : Entitled payer past addr earned.hash := by
  have sender {tx : RpcTx} (sent : SentBy past st addr earned.hash tx) : addr = payer earned.hash := by
    obtain ⟨rfl, value, ⟨fetched, member, result⟩, decoded⟩ := sent
    exact (honest _ member).1 _ tx rfl rfl (by rw [result]; exact decoded)
  unfold Entitled
  cases chain : spec.chain with
  | ethereum =>
    simp only [rowKey, chain, Option.ite_none_right_eq_some, Option.some.injEq] at named
    obtain ⟨valid, same⟩ := named
    rw [same] at valid
    rw [validSignature_of_validTxHash valid]
    unfold Paid at paid
    rw [chain] at paid
    cases token : spec.contract with
    | none =>
      rw [token] at paid
      obtain ⟨tx, receipt, sent, _⟩ := paid
      exact sender sent
    | some contract =>
      rw [token] at paid
      obtain ⟨tx, receipt, sent, _⟩ := paid
      exact sender sent
  | solana =>
    simp only [rowKey, chain, Option.ite_none_right_eq_some, Option.some.injEq] at named
    obtain ⟨valid, same⟩ := named
    rw [same] at valid
    rw [if_pos valid]
    simp only [Paid, chain] at paid
    obtain ⟨linked, value, wallet, ⟨fetched, member, result⟩, credited⟩ := paid
    rw [← (honest _ member).2 _ value linked rfl rfl result (verifySolana_feePayer credited)]
    exact wallet

theorem allowed_of_justified {session : Option String} {req : TopupReq} (past : History) (command : Command)
    (justified : Justified st session req past command) : Allowed st payer past command := by
  cases command with
  | doCredit addr credit =>
    obtain ⟨spec, earned, holds, _, _, named, ⟨_, paid, _⟩, rfl⟩ := justified
    exact ⟨earned.hash, holds, rfl, entitled_of_evidence named paid⟩
  | selectSolana addr => exact justified
  | insertPayment hash addr chain token now => exact justified
  | deletePending hash => exact justified
  | _ => trivial

theorem launch_allowed (request : Request) :
    (launch st request).wp (Program.recording (Allowed st payer)) (fun _ _ => True) [] := by
  have handled : (handle st request).wp (Program.recording (Allowed st payer)) (fun _ _ => True) (fun _ _ => True)
      [] := by
    cases request with
    | topup session req => exact Handler.wp_recording_mono (topup_justified st session req) allowed_of_justified
    | link session req =>
      exact link_rule (fun _ _ => ⟨trivial, trivial⟩) (fun _ => ⟨trivial, trivial⟩) (fun _ _ _ _ => trivial) fun _ => trivial
    | unlink session => exact unlink_rule (fun _ _ => trivial) fun _ => trivial
    | verifySolana req =>
      exact verifySolana_rule (fun _ _ => ⟨trivial, trivial⟩) (fun _ => ⟨trivial, trivial, trivial⟩) (fun _ => trivial)
        (fun _ _ => trivial) fun _ _ => trivial
  exact Program.wp_mono (Handler.run_of_wp handled) fun _ _ _ => trivial

end Discipline

section Services
variable {w : World} {choice : Choice} {hash : String}

def marked (w : World) (addr key : String) : Prop := ((w.accounts addr).credit key).isSome = true

theorem serve_inserted {command : Command} {addr chain token : String} {now : Nat}
    (inserted : (⟨command, (serve w command choice).1⟩ : Exchange Command Command.Reply) =
      ⟨.insertPayment hash addr chain token now, .ok ()⟩) :
    command = .insertPayment hash addr chain token now ∧ w.payments hash = none ∧
      (serve w command choice).2.payments hash ≠ none := by
  obtain ⟨rfl, answered⟩ := Sigma.mk.inj inserted
  exact ⟨rfl, serve_insert (eq_of_heq answered)⟩

theorem serve_credit_marked {addr other key : String} {req : CreditReq} (reached : choice.fault ≠ .refused) :
    marked (serve w (.doCredit addr req) choice).2 other key ↔ marked w other key ∨ other = addr ∧ key = req.key := by
  have world : (serve w (.doCredit addr req) choice).2 = w.setAccount addr (Account.credit (w.accounts addr) req).2 :=
    Fault.apply_of_reached reached
  unfold marked
  rw [world]
  by_cases same : other = addr
  · subst same
    simp only [World.setAccount, Function.update_self, credit_marker, true_and]
  · simp only [World.setAccount, Function.update_of_ne same, same, false_and, or_false]

theorem serve_credit_isOk {addr : String} {req : CreditReq} :
    (serve w (.doCredit addr req) choice).1.isOk = decide (choice.fault = .none) := by
  obtain ⟨resp, answers⟩ := credit_balance (w.accounts addr) req
  simp only [serve, Fault.apply, answers, creditReply]
  cases choice.fault with
  | none => rfl
  | refused => rfl
  | lost => rfl

theorem serve_marked {command : Command} {addr key : String}
    (other : ∀ req, command = .doCredit addr req → req.key = key → choice.fault = .refused) :
    marked (serve w command choice).2 addr key ↔ marked w addr key := by
  unfold marked
  rcases serve_account w command choice addr with same | ⟨_, same⟩ | ⟨req, credits, reached, same⟩
  · rw [same]
  · rw [same, init_marker]
  · rw [same, credit_marker, or_iff_left]
    rintro rfl
    exact reached (other req credits rfl)

end Services

section Phases

def row : Phase → Option String
  | .quiet => none
  | .holding _ hash | .paid hash | .failed hash => some hash

def gives (hash : String) : Phase → Prop
  | .holding _ held | .failed held => held = hash
  | .quiet | .paid _ => False

theorem row_of_gives {phase : Phase} {hash : String} (giving : gives hash phase) : row phase = some hash := by
  cases phase with
  | holding addr held => exact congrArg some giving
  | failed held => exact congrArg some giving
  | quiet => exact giving.elim
  | paid held => exact giving.elim

/-- How one exchange moves a phase: into a row just inserted, out of any row,
past a credit, or not at all. -/
theorem next_cases (phase : Phase) (command : Command) (reply : command.Reply) :
    (∃ hash addr chain token now, (⟨command, reply⟩ : Exchange Command Command.Reply) =
        ⟨.insertPayment hash addr chain token now, .ok ()⟩ ∧ phase.next command reply = .holding addr hash) ∨
      phase.next command reply = .quiet ∨
      (∃ addr req, command = .doCredit addr req) ∨
      phase.next command reply = phase ∧ ∀ hash, command ≠ .deletePending hash := by
  cases command with
  | insertPayment hash addr chain token now =>
    cases reply with
    | ok => exact .inl ⟨hash, addr, chain, token, now, rfl, rfl⟩
    | error failure => exact .inr (.inr (.inr ⟨rfl, by simp⟩))
  | rejectPayment hash => exact .inr (.inl rfl)
  | deletePending hash => exact .inr (.inl rfl)
  | creditPayment hash amount points => exact .inr (.inl rfl)
  | doCredit addr req => exact .inr (.inr (.inl ⟨addr, req, rfl⟩))
  | _ => exact .inr (.inr (.inr ⟨rfl, by simp⟩))

theorem credit_row {phase : Phase} {answered : Bool} : row (phase.credit answered) = row phase := by
  cases phase with
  | holding addr hash => cases answered <;> rfl
  | _ => rfl

theorem gives_of_credit {phase : Phase} {answered : Bool} {hash : String} (giving : gives hash (phase.credit answered)) :
    gives hash phase := by
  cases phase with
  | holding addr held =>
    cases answered with
    | true => exact giving.elim
    | false => exact giving
  | _ => exact giving

theorem next_row {phase : Phase} {command : Command} {reply : command.Reply} {hash : String}
    (holds : row (phase.next command reply) = some hash) :
    (∃ addr chain token now, (⟨command, reply⟩ : Exchange Command Command.Reply) =
      ⟨.insertPayment hash addr chain token now, .ok ()⟩) ∨
      row phase = some hash ∧ ∀ other, command ≠ .deletePending other := by
  rcases next_cases phase command reply with
    ⟨other, addr, chain, token, now, same, next⟩ | quiet | ⟨addr, req, rfl⟩ | ⟨next, kept⟩
  · rw [next] at holds
    cases holds
    exact .inl ⟨addr, chain, token, now, same⟩
  · rw [quiet] at holds
    cases holds
  · exact .inr ⟨credit_row.symm.trans holds, by simp⟩
  · rw [next] at holds
    exact .inr ⟨holds, kept⟩

theorem next_gives {phase : Phase} {command : Command} {reply : command.Reply} {hash : String}
    (giving : gives hash (phase.next command reply)) :
    (∃ addr chain token now, (⟨command, reply⟩ : Exchange Command Command.Reply) =
      ⟨.insertPayment hash addr chain token now, .ok ()⟩) ∨ gives hash phase := by
  rcases next_cases phase command reply with
    ⟨other, addr, chain, token, now, same, next⟩ | quiet | ⟨addr, req, rfl⟩ | ⟨next, _⟩
  · rw [next] at giving
    cases giving
    exact .inl ⟨addr, chain, token, now, same⟩
  · rw [quiet] at giving
    exact giving.elim
  · exact .inr (gives_of_credit giving)
  · rw [next] at giving
    exact .inr giving

end Phases

section Invariant
variable (st : AppState) (payer : String → String)

/-- A row that outlives its request: it exists, and nobody may give it up. -/
def Settled (w : World) (states : List History) (hash : String) : Prop :=
  w.payments hash ≠ none ∧ ∀ past ∈ states, ¬ gives hash (phase past)

/-- The hash was never credited, or once, to an account it belongs to, and then
its row is settled or the response was lost. -/
def Once (log : List Served) (w : World) (states : List History) (hash : String) : Prop :=
  log.countP (applies ("tx:" ++ hash)) = 0 ∧ (∀ addr, ¬ marked w addr ("tx:" ++ hash)) ∨
  log.countP (applies ("tx:" ++ hash)) = 1 ∧ ∃ addr, (∀ other, marked w other ("tx:" ++ hash) ↔ other = addr) ∧
    (validSignature hash = false → addr = payer hash) ∧
    (Settled w states hash ∨ ∃ lost ∈ log, Loses addr hash lost)

structure Guarded (log : List Served) (w : World) (states : List History) : Prop where
  seen : ∀ past ∈ states, ∀ exchange ∈ past, HonestExchange st payer exchange ∧
    ∃ served ∈ log, (⟨served.command, served.reply⟩ : Exchange Command Command.Reply) = exchange
  exists_row : ∀ past ∈ states, ∀ hash, row (phase past) = some hash → w.payments hash ≠ none
  alone : ∀ (i j : Nat) past other hash, states[i]? = some past → states[j]? = some other →
    row (phase past) = some hash → row (phase other) = some hash → i = j
  held : ∀ past ∈ states, ∀ addr hash, phase past = .holding addr hash → validSignature hash = true →
    Wallet past addr (payer hash) → ∀ lost ∈ log, ∀ other, Loses other hash lost → other = addr
  once : ∀ hash, Once payer log w states hash

variable {st payer} {log : List Served} {w : World} {states : List History} {i : Nat} {past : History}
  {command : Command} {choice : Choice}

theorem set_cases {next other : History} {j : Nat} (found : (states.set i next)[j]? = some other) :
    i = j ∧ other = next ∨ i ≠ j ∧ states[j]? = some other := by
  rw [List.getElem?_set] at found
  split at found
  next same =>
    split at found
    · exact .inl ⟨same, (Option.some.inj found).symm⟩
    · cases found
  next different => exact .inr ⟨different, found⟩

theorem initial_guarded {start : World} (fresh : ∀ addr hash, ¬ marked start addr ("tx:" ++ hash)) :
    Guarded st payer [] start [] where
  seen := by simp
  exists_row := by simp
  alone i j past other hash first := by simp at first
  held := by simp
  once hash := .inl ⟨rfl, fun addr => fresh addr hash⟩

theorem spawn_guarded (holds : Guarded st payer log w states) : Guarded st payer log w (states ++ [[]]) := by
  have old {past : History} (member : past ∈ states ++ [[]]) : past ∈ states ∨ past = [] := by
    simpa using member
  constructor
  · intro past member exchange exchanged
    rcases old member with member | rfl
    · exact holds.seen past member exchange exchanged
    · cases exchanged
  · intro past member hash taken
    rcases old member with member | rfl
    · exact holds.exists_row past member hash taken
    · cases taken
  · intro i j past other hash first second taken taken'
    have kept {i : Nat} {past : History} (found : (states ++ [[]])[i]? = some past)
        (taken : row (phase past) = some hash) : states[i]? = some past := by
      rw [List.getElem?_append] at found
      split at found
      · exact found
      · rcases List.mem_singleton.mp (List.mem_of_getElem? found)
        cases taken
    exact holds.alone i j past other hash (kept first taken) (kept second taken') taken taken'
  · intro past member addr hash holding
    rcases old member with member | rfl
    · exact holds.held past member addr hash holding
    · cases holding
  · intro hash
    rcases holds.once hash with none | ⟨one, addr, only, belongs, rest⟩
    · exact .inl none
    · refine .inr ⟨one, addr, only, belongs, rest.imp (fun settled => ⟨settled.1, fun past member => ?_⟩) id⟩
      rcases old member with member | rfl
      · exact settled.2 past member
      · exact id

/-- Deleting a row takes the request that holds it. -/
theorem deletes_own {hash : String} (asks : Allowed st payer past (.deletePending hash)) : gives hash (phase past) := by
  rcases asks with ⟨addr, holding⟩ | failed
  · rw [holding]
    exact rfl
  · rw [failed]
    exact rfl

theorem key_inj {hash other : String} (same : "tx:" ++ hash = "tx:" ++ other) : hash = other := by
  have chars := congrArg String.toList same
  rw [String.toList_append, String.toList_append] at chars
  exact String.toList_injective (List.append_cancel_left chars)

theorem applies_credit {addr key : String} {req : CreditReq} (reply : Except Failure BalanceResp) :
    applies key ⟨w, .doCredit addr req, choice, reply⟩ = true ↔
      req.key = key ∧ choice.fault ≠ .refused ∧ ¬ marked w addr key := by
  simp [applies, marked, and_assoc]

theorem credit_of_applies {reply : command.Reply} {key : String}
    (applied : applies key ⟨w, command, choice, reply⟩ = true) : ∃ addr req, command = .doCredit addr req ∧ req.key = key ∧ choice.fault ≠ .refused := by
  cases command with
  | doCredit addr req =>
    obtain ⟨same, reached, _⟩ := (applies_credit reply).mp applied
    exact ⟨addr, req, rfl, same, reached⟩
  | _ => cases applied

theorem loser_holds {reply : command.Reply} {loser hash : String} (asks : Allowed st payer past command)
    (loses : Loses loser hash ⟨w, command, choice, reply⟩) : phase past = .holding loser hash := by
  cases command with
  | doCredit addr req =>
    obtain ⟨rfl, key, _⟩ := loses
    obtain ⟨held, holding, key', _⟩ := asks
    rw [key_inj (key.symm.trans key')]
    exact holding
  | _ => exact loses.elim

theorem credit_ne_holding {phase : Phase} {answered : Bool} {addr hash : String}
    (same : phase.credit answered = .holding addr hash) : False := by
  cases phase with
  | holding other held => cases answered <;> cases same
  | _ => cases same

theorem wallet_of_cons {reply : command.Reply} {addr wallet : String}
    (found : Wallet (⟨command, reply⟩ :: past) addr wallet) (other : ∀ looked, command ≠ .selectSolana looked) : Wallet past addr wallet := by
  obtain ⟨looked, member, same⟩ := found
  rcases List.mem_cons.mp member with first | member
  · exact (other addr (Sigma.mk.inj first).1.symm).elim
  · exact ⟨looked, member, same⟩

theorem found_of_wallet {addr wallet : String} (holds : Guarded st payer log w states) (state : states[i]? = some past)
    (found : Wallet past addr wallet) : ∃ served ∈ log, Finds addr wallet served := by
  obtain ⟨reply, member, looked⟩ := found
  obtain ⟨_, ⟨world, command, choice, answer⟩, logged, same⟩ := holds.seen past (List.mem_of_getElem? state) _ member
  cases same
  exact ⟨_, logged, rfl, looked⟩

section Step
variable (holds : Guarded st payer log w states) (state : states[i]? = some past)
include holds state

theorem step_seen (fits : Fits st payer log ⟨w, command, choice, (serve w command choice).1⟩) :
    ∀ other ∈ states.set i (⟨command, (serve w command choice).1⟩ :: past), ∀ exchange ∈ other,
      HonestExchange st payer exchange ∧ ∃ served ∈ ⟨w, command, choice, (serve w command choice).1⟩ :: log,
        (⟨served.command, served.reply⟩ : Exchange Command Command.Reply) = exchange := by
  intro other member exchange exchanged
  have kept {other : History} (member : other ∈ states) (exchanged : exchange ∈ other) :
      HonestExchange st payer exchange ∧ ∃ served ∈ ⟨w, command, choice, (serve w command choice).1⟩ :: log,
        (⟨served.command, served.reply⟩ : Exchange Command Command.Reply) = exchange := by
    obtain ⟨honest, served, logged, same⟩ := holds.seen other member exchange exchanged
    exact ⟨honest, served, List.mem_cons_of_mem _ logged, same⟩
  rcases List.mem_or_eq_of_mem_set member with member | rfl
  · exact kept member exchanged
  · rcases List.mem_cons.mp exchanged with rfl | exchanged
    · exact ⟨fits.1, _, List.mem_cons_self .., rfl⟩
    · exact kept (List.mem_of_getElem? state) exchanged

theorem step_exists (asks : Allowed st payer past command) :
    ∀ other ∈ states.set i (⟨command, (serve w command choice).1⟩ :: past), ∀ hash,
      row (phase other) = some hash → (serve w command choice).2.payments hash ≠ none := by
  intro other member hash taken
  obtain ⟨j, found⟩ := List.mem_iff_getElem?.mp member
  rcases set_cases found with ⟨_, rfl⟩ | ⟨different, old⟩
  · rcases next_row taken with ⟨addr, chain, token, now, inserted⟩ | ⟨before, kept⟩
    · exact (serve_inserted inserted).2.2
    · exact serve_row (holds.exists_row past (List.mem_of_getElem? state) hash before) (kept hash)
  · apply serve_row (holds.exists_row other (List.mem_of_getElem? old) hash taken)
    intro deletes
    rw [deletes] at asks
    exact different (holds.alone i j past other hash state old (row_of_gives (deletes_own asks)) taken)

theorem step_alone : ∀ (j k : Nat) first second hash,
    (states.set i (⟨command, (serve w command choice).1⟩ :: past))[j]? = some first →
    (states.set i (⟨command, (serve w command choice).1⟩ :: past))[k]? = some second →
    row (phase first) = some hash → row (phase second) = some hash → j = k := by
  have own {j : Nat} {other : History} {hash : String} (found : states[j]? = some other)
      (taken : row (phase other) = some hash)
      (moved : row (phase (⟨command, (serve w command choice).1⟩ :: past)) = some hash) : i = j := by
    rcases next_row moved with ⟨addr, chain, token, now, inserted⟩ | ⟨before, _⟩
    · exact (holds.exists_row other (List.mem_of_getElem? found) hash taken (serve_inserted inserted).2.1).elim
    · exact holds.alone i j past other hash state found before taken
  intro j k first second hash found found' taken taken'
  rcases set_cases found with ⟨rfl, rfl⟩ | ⟨different, found⟩
  · rcases set_cases found' with ⟨rfl, rfl⟩ | ⟨_, found'⟩
    · rfl
    · exact own found' taken' taken
  · rcases set_cases found' with ⟨rfl, rfl⟩ | ⟨_, found'⟩
    · exact (own found taken taken').symm
    · exact holds.alone j k first second hash found found' taken taken'

theorem step_held (asks : Allowed st payer past command)
    (fits : Fits st payer log ⟨w, command, choice, (serve w command choice).1⟩) :
    ∀ other ∈ states.set i (⟨command, (serve w command choice).1⟩ :: past), ∀ addr hash,
      phase other = .holding addr hash → validSignature hash = true → Wallet other addr (payer hash) →
      ∀ lost ∈ ⟨w, command, choice, (serve w command choice).1⟩ :: log, ∀ loser, Loses loser hash lost →
        loser = addr := by
  intro other member addr hash holding signature wallet lost logged loser loses
  obtain ⟨j, found⟩ := List.mem_iff_getElem?.mp member
  rcases set_cases found with ⟨_, rfl⟩ | ⟨different, old⟩
  · rcases next_cases (phase past) command (serve w command choice).1 with
      ⟨_, _, chain, token, now, inserted, next⟩ | quiet | ⟨credited, req, rfl⟩ | ⟨kept, _⟩
    · cases next.symm.trans holding
      obtain ⟨rfl, answered⟩ := Sigma.mk.inj inserted
      have safe := fits.2
      rw [eq_of_heq answered] at safe
      rcases List.mem_cons.mp logged with rfl | logged
      · exact loses.elim
      · exact safe signature (found_of_wallet holds state (wallet_of_cons wallet (by simp))) lost logged loser loses
    · cases quiet.symm.trans holding
    · exact (credit_ne_holding holding).elim
    · have before : phase past = .holding addr hash := kept.symm.trans holding
      rcases List.mem_cons.mp logged with rfl | logged
      · cases (loser_holds asks loses).symm.trans before
        rfl
      · have same := wallet_of_cons wallet fun looked selects => by
          rw [selects] at asks
          cases asks.symm.trans before
        exact holds.held past (List.mem_of_getElem? state) addr hash before signature same lost logged loser loses
  · rcases List.mem_cons.mp logged with rfl | logged
    · have own := loser_holds asks loses
      refine (different (holds.alone i j past other hash state old ?_ ?_)).elim
      · rw [own]
        rfl
      · rw [holding]
        rfl
    · exact holds.held other (List.mem_of_getElem? old) addr hash holding signature wallet lost logged loser loses

omit holds in
theorem step_settled {hash : String} (asks : Allowed st payer past command) (settled : Settled w states hash) :
    Settled (serve w command choice).2 (states.set i (⟨command, (serve w command choice).1⟩ :: past)) hash := by
  have mine := settled.2 past (List.mem_of_getElem? state)
  constructor
  · apply serve_row settled.1
    intro deletes
    rw [deletes] at asks
    exact mine (deletes_own asks)
  · intro other member giving
    rcases List.mem_or_eq_of_mem_set member with member | rfl
    · exact settled.2 other member giving
    · rcases next_gives giving with ⟨addr, chain, token, now, inserted⟩ | before
      · exact settled.1 (serve_inserted inserted).2.1
      · exact mine before

theorem credit_settled {hash addr : String} {req : CreditReq} (holding : phase past = .holding addr hash)
    (arrived : choice.fault = .none) : Settled (serve w (.doCredit addr req) choice).2
      (states.set i (⟨.doCredit addr req, (serve w (.doCredit addr req) choice).1⟩ :: past)) hash := by
  have own : row (phase past) = some hash := by rw [holding]; rfl
  constructor
  · exact serve_row (holds.exists_row past (List.mem_of_getElem? state) hash own) (by simp)
  · intro other member giving
    obtain ⟨j, found⟩ := List.mem_iff_getElem?.mp member
    rcases set_cases found with ⟨_, rfl⟩ | ⟨different, old⟩
    · change gives hash ((phase past).credit (serve w (.doCredit addr req) choice).1.isOk) at giving
      rw [holding, serve_credit_isOk, arrived] at giving
      exact giving
    · exact different (holds.alone i j past other hash state old own (row_of_gives giving))

/-- A credit that reaches its account is the hash's first, or repeats an earlier
one to the same account after a lost response. -/
theorem credit_once {hash addr : String} {req : CreditReq} (key : req.key = "tx:" ++ hash)
    (reached : choice.fault ≠ .refused) (holding : phase past = .holding addr hash)
    (owned : Entitled payer past addr hash) :
    Once payer (⟨w, .doCredit addr req, choice, (serve w (.doCredit addr req) choice).1⟩ :: log)
      (serve w (.doCredit addr req) choice).2
      (states.set i (⟨.doCredit addr req, (serve w (.doCredit addr req) choice).1⟩ :: past)) hash := by
  have marks (other : String) : marked (serve w (.doCredit addr req) choice).2 other ("tx:" ++ hash) ↔
      marked w other ("tx:" ++ hash) ∨ other = addr := by
    rw [serve_credit_marked reached, key]
    simp
  have member := List.mem_of_getElem? state
  rcases holds.once hash with ⟨none, unmarked⟩ | ⟨one, first, only, belongs, settled | ⟨lost, logged, loses⟩⟩
  · have count : (⟨w, .doCredit addr req, choice, (serve w (.doCredit addr req) choice).1⟩ :: log).countP
        (applies ("tx:" ++ hash)) = log.countP (applies ("tx:" ++ hash)) + 1 :=
      List.countP_cons_of_pos ((applies_credit _).mpr ⟨key, reached, unmarked addr⟩)
    refine .inr ⟨by rw [count, none], addr, fun other => ?_, fun ethereum => ?_, ?_⟩
    · rw [marks, or_iff_right (unmarked other)]
    · rwa [Entitled, if_neg (by simp [ethereum])] at owned
    · cases fault : choice.fault with
      | refused => exact (reached fault).elim
      | none => exact .inl (credit_settled holds state holding fault)
      | lost => exact .inr ⟨_, List.mem_cons_self .., rfl, key, fault⟩
  · refine (settled.2 past member ?_).elim
    rw [holding]
    exact rfl
  · have same : first = addr := by
      cases signature : validSignature hash with
      | true =>
        rw [Entitled, if_pos signature] at owned
        exact holds.held past member addr hash holding signature owned lost logged first loses
      | false =>
        rw [Entitled, if_neg (by simp [signature])] at owned
        exact (belongs signature).trans owned.symm
    subst same
    have count : (⟨w, .doCredit first req, choice, (serve w (.doCredit first req) choice).1⟩ :: log).countP
        (applies ("tx:" ++ hash)) = log.countP (applies ("tx:" ++ hash)) :=
      List.countP_cons_of_neg (mt (applies_credit _).mp fun applied => applied.2.2 ((only first).mpr rfl))
    refine .inr ⟨by rw [count, one], first, fun other => ?_, belongs, .inr ⟨lost, List.mem_cons_of_mem _ logged, loses⟩⟩
    rw [marks, only, or_self]

/-- Any other command leaves the markers of the hash alone. -/
theorem uncredited_once {hash : String} (asks : Allowed st payer past command)
    (other : ∀ addr req, command = .doCredit addr req → req.key = "tx:" ++ hash → choice.fault = .refused) :
    Once payer (⟨w, command, choice, (serve w command choice).1⟩ :: log) (serve w command choice).2
      (states.set i (⟨command, (serve w command choice).1⟩ :: past)) hash := by
  have unmoved (addr : String) : marked (serve w command choice).2 addr ("tx:" ++ hash) ↔
      marked w addr ("tx:" ++ hash) := serve_marked (other addr)
  have count : (⟨w, command, choice, (serve w command choice).1⟩ :: log).countP (applies ("tx:" ++ hash)) =
      log.countP (applies ("tx:" ++ hash)) := by
    apply List.countP_cons_of_neg
    intro applied
    obtain ⟨addr, req, same, key, reached⟩ := credit_of_applies applied
    exact reached (other addr req same key)
  unfold Once
  rw [count]
  rcases holds.once hash with ⟨none, unmarked⟩ | ⟨one, addr, only, belongs, rest⟩
  · exact .inl ⟨none, fun addr => (unmoved addr).not.mpr (unmarked addr)⟩
  · refine .inr ⟨one, addr, fun other => (unmoved other).trans (only other), belongs, ?_⟩
    rcases rest with settled | ⟨lost, logged, loses⟩
    · exact .inl (step_settled state asks settled)
    · exact .inr ⟨lost, List.mem_cons_of_mem _ logged, loses⟩

theorem step_once (asks : Allowed st payer past command) (hash : String) :
    Once payer (⟨w, command, choice, (serve w command choice).1⟩ :: log) (serve w command choice).2
      (states.set i (⟨command, (serve w command choice).1⟩ :: past)) hash := by
  by_cases credits : ∃ addr req, command = .doCredit addr req ∧ req.key = "tx:" ++ hash ∧ choice.fault ≠ .refused
  · obtain ⟨addr, req, rfl, key, reached⟩ := credits
    obtain ⟨held, holding, key', entitled⟩ := asks
    cases key_inj (key.symm.trans key')
    apply credit_once holds state key reached holding
    exact entitled fun exchange member => (holds.seen past (List.mem_of_getElem? state) exchange member).1
  · apply uncredited_once holds state asks
    intro addr req same key
    exact Classical.not_not.mp fun reached => credits ⟨addr, req, same, key, reached⟩

theorem step_guarded (asks : Allowed st payer past command)
    (fits : Fits st payer log ⟨w, command, choice, (serve w command choice).1⟩) :
    Guarded st payer (⟨w, command, choice, (serve w command choice).1⟩ :: log) (serve w command choice).2
      (states.set i (⟨command, (serve w command choice).1⟩ :: past)) where
  seen := step_seen holds state fits
  exists_row := step_exists holds state asks
  alone := step_alone holds state
  held := step_held holds state asks fits
  once := step_once holds state asks

end Step

end Invariant

theorem kept_of_arrived {payer : String → String} {log : List Served} {served : Served}
    (arrived : ∀ old ∈ log, old.choice.fault ≠ .lost) : Kept payer log served := by
  unfold Kept
  split
  · intro _ _ ⟨world, command, choice, reply⟩ member other loses
    cases command with
    | doCredit addr req => exact (arrived _ member loses.2.2).elim
    | _ => exact loses.elim
  · trivial

/-- In every interleaving of top-ups, links and sign-ins, whatever fails, each
hash is credited at most once over all accounts, so long as no row is inserted
for a second owner of the paying wallet after a lost response. -/
theorem credited_once (st : AppState) (payer : String → String) (start : World)
    (fresh : ∀ addr hash, ¬ marked start addr ("tx:" ++ hash))
    {past : Pool.Past Command Command.Reply (Except Answer Answer) World Request Choice}
    {pool : Pool Command Command.Reply (Except Answer Answer) World}
    (run : (machine st start).Run (Pool.serving serve (launch st) (Fits st payer)) ⟨start, []⟩ past pool)
    (hash : String) : (Pool.log past).countP (applies ("tx:" ++ hash)) ≤ 1 := by
  obtain ⟨states, _, guarded⟩ := Pool.invariant run launch_allowed (initial_guarded fresh) spawn_guarded
    fun choice holds state asks fits => ⟨trivial, step_guarded holds state asks fits⟩
  rcases guarded.once hash with ⟨none, _⟩ | ⟨one, _⟩
  · rw [none]
    exact Nat.zero_le 1
  · exact Nat.le_of_eq one

section Example

/-- The nonce of a link, and its message signed by the wallet. -/
def sampleNonce : String := "6d6a4c1a8b7f4e0fa1b2c3d4e5f60718"
def linkSignature : String := "3iVs8Ae9dKfr9CKNJbg24TZRMDAfRQERQud3EG58kSdNyzhhRvL4gkaN5qdvChB4HiQ7kz2WtK3QKT2U3i2KaDvq"

def sampleStart : World :=
  ⟨fun _ => none, [⟨account 'a', 0, 0, false, some sampleWallet⟩, ⟨account 'b', 0, 0, false, none⟩],
    fun key => key = "nonce:" ++ sampleNonce, fun _ => {}⟩

def samplePayer (_ : String) : String := sampleWallet

theorem sampleStart_unmarked (addr hash : String) : ¬ marked sampleStart addr ("tx:" ++ hash) := by
  simp [marked, sampleStart]

def submitted (addr : String) : Request := .topup (some addr) ⟨"solana", "usdc", sampleSignature⟩

def serves (thread count : Nat) : List (Turn Request Choice) :=
  List.replicate count (.advance thread ⟨.none, 0, deposited⟩)

theorem serves_choice {i thread count : Nat} {choice : Choice} (member : .advance i choice ∈ serves thread count) :
    choice = ⟨.none, 0, deposited⟩ := by
  cases List.eq_of_mem_replicate member
  rfl

theorem serve_honest (w : World) (command : Command) {choice : Choice} (answer : choice.fetched = deposited) :
    HonestExchange sampleState samplePayer ⟨command, (serve w command choice).1⟩ := by
  cases command with
  | fetch url body =>
    change HonestExchange sampleState samplePayer ⟨.fetch url body, choice.fetched⟩
    rw [answer]
    refine ⟨fun hash tx _ _ decoded => ?_, fun sig value sender _ _ result paid => ?_⟩
    · have undecoded : (Rates.rpcResult deposited).bind decodeTx = none := by decide +kernel
      cases undecoded.symm.trans decoded
    · cases result
      have payer : feePayer usdcTransfer = some sampleWallet := by decide +kernel
      exact Option.some.inj (paid.symm.trans payer)
  | _ => trivial

/-- The response of the first account's credit is lost, the wallet changes hands,
and the second account is credited for the same signature. -/
theorem credited_twice :
    let turns := [.spawn (submitted (account 'a'))] ++ serves 0 4 ++ [.advance 0 ⟨.lost, 0, deposited⟩] ++ serves 0 1 ++
      [.spawn (.unlink (some (account 'a')))] ++ serves 1 1 ++
      [.spawn (.link (some (account 'b')) ⟨sampleWallet, linkSignature, sampleNonce⟩)] ++ serves 2 5 ++
      [.spawn (submitted (account 'b'))] ++ serves 3 6
    let run := (machine sampleState sampleStart).play ([], ⟨sampleStart, []⟩) turns
    (∀ addr hash, ¬ marked sampleStart addr ("tx:" ++ hash)) ∧
      (machine sampleState sampleStart).Run (Pool.serving serve (launch sampleState) fun _ served =>
        HonestExchange sampleState samplePayer ⟨served.command, served.reply⟩) ⟨sampleStart, []⟩ run.1 run.2 ∧
      (Pool.log run.1).countP (applies ("tx:" ++ sampleSignature)) = 2 := by
  intro turns run
  have good : ∀ i choice, Turn.advance i choice ∈ turns → choice.fetched = deposited := by
    intro i choice member
    simp only [turns, List.mem_append, List.mem_singleton, reduceCtorEq, false_or, or_false, Turn.advance.injEq] at member
    rcases member with ((((served | lost) | served) | served) | served) | served
    · rw [serves_choice served]
    · rw [lost.2]
    all_goals rw [serves_choice served]
  have honest : (machine sampleState sampleStart).Permitted (Pool.serving serve (launch sampleState) fun _ served =>
      HonestExchange sampleState samplePayer ⟨served.command, served.reply⟩) ([], ⟨sampleStart, []⟩) turns :=
    Pool.permitted (fun log w command choice _ answer => serve_honest w command answer) turns good (by simp [Pool.log])
  exact ⟨sampleStart_unmarked, Machine.Run.play .start turns honest, by decide +kernel⟩

theorem credited_once_arrived :
    let turns := [.spawn (submitted (account 'a'))] ++ serves 0 6
    let run := (machine sampleState sampleStart).play ([], ⟨sampleStart, []⟩) turns
    (Pool.log run.1).countP (applies ("tx:" ++ sampleSignature)) ≤ 1 ∧
      (Pool.log run.1).any (applies ("tx:" ++ sampleSignature)) = true := by
  intro turns run
  have good : ∀ i choice, Turn.advance i choice ∈ turns → choice.fetched = deposited ∧ choice.fault = .none := by
    intro i choice member
    simp only [turns, List.mem_append, List.mem_singleton, reduceCtorEq, false_or] at member
    rw [serves_choice member]
    exact ⟨rfl, rfl⟩
  have fits (log : List Served) (w : World) (command : Command) (choice : Choice)
      (before : ∀ old ∈ log, old.choice.fetched = deposited ∧ old.choice.fault = .none)
      (answer : choice.fetched = deposited ∧ choice.fault = .none) :
      Fits sampleState samplePayer log ⟨w, command, choice, (serve w command choice).1⟩ :=
    ⟨serve_honest w command answer.1, kept_of_arrived fun old member => by simp [(before old member).2]⟩
  have permitted : (machine sampleState sampleStart).Permitted
      (Pool.serving serve (launch sampleState) (Fits sampleState samplePayer)) ([], ⟨sampleStart, []⟩) turns :=
    Pool.permitted fits turns good (by simp [Pool.log])
  have ran : (machine sampleState sampleStart).Run
      (Pool.serving serve (launch sampleState) (Fits sampleState samplePayer)) ⟨sampleStart, []⟩ run.1 run.2 :=
    Machine.Run.play .start turns permitted
  exact ⟨credited_once sampleState samplePayer sampleStart sampleStart_unmarked ran sampleSignature, by decide +kernel⟩

end Example

end LetsEmbed.Worker
