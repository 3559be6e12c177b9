import LetsEmbed.Proofs.PaymentsRules

/-! No unearned credit. Whatever the services answer, a top-up reaches the
account object only with evidence for every part of the credit among the
exchanges of the same request. -/

namespace LetsEmbed.Payments
open Account Config Rates Solana Session Systems Text

abbrev History := List (Exchange Command Command.Reply)

def Answered (past : History) (url : String) (body value : Json) : Prop :=
  ∃ fetched, ⟨.fetch url body, fetched⟩ ∈ past ∧ rpcResult fetched = some value

def Locked (past : History) (addr : String) (spec : TokenSpec) (hash : String) : Prop :=
  ∃ now, ⟨.insertPayment hash addr spec.chain.asStr spec.symbol now, .ok ()⟩ ∈ past

def SentBy (past : History) (st : AppState) (addr hash : String) (tx : RpcTx) : Prop :=
  st.toLowercase tx.sender = addr ∧
    ∃ value, Answered past st.rpcUrl (rpcBody "eth_getTransactionByHash" [.str hash]) value ∧ decodeTx value = some tx

def Mined (past : History) (st : AppState) (hash : String) (receipt : RpcReceipt) : Prop :=
  (∃ value, Answered past st.rpcUrl (rpcBody "eth_getTransactionReceipt" [.str hash]) value ∧
    decodeReceipt value = some receipt) ∧
  receipt.status = some "0x1" ∧
  ∃ block, receipt.blockNumber.bind hexToU64 = some block ∧
    ∃ value head, Answered past st.rpcUrl (rpcBody "eth_blockNumber" []) value ∧
      value.asStr.bind hexToU64 = some head ∧ block ≤ head ∧ minConfirmations ≤ head - block + 1

def Transfers (st : AppState) (addr contract : String) (amount : Nat) (log : RpcLog) : Prop :=
  st.toLowercase log.address = contract ∧
    ∃ topic0 topic1 topic2 more, log.topics = topic0 :: topic1 :: topic2 :: more ∧
      st.toLowercase topic0 = transferTopic0 ∧
      topicAddress st.toLowercase topic1 = some ((stripPrefix "0x" addr).getD addr) ∧
      topicAddress st.toLowercase topic2 = some ((stripPrefix "0x" st.depositAddress).getD st.depositAddress) ∧
      hexToU128 log.data = some amount

/-- The wallet found for the account: its linked one, or itself when it is a
standalone Solana account without one. -/
def Wallet (past : History) (addr linked : String) : Prop :=
  ∃ reply, ⟨.selectSolana addr, reply⟩ ∈ past ∧ walletOf addr reply = some linked

def Fresh (hex : String) (now price : Nat) : Prop :=
  0 < price ∧ ∃ words updatedAt, stripPrefix "0x" hex = some words ∧
    wordToU128 ((words.toList.drop 64).take 64) = .ok price ∧
    wordToU128 ((words.toList.drop 192).take 64) = .ok updatedAt ∧ now - updatedAt ≤ chainlinkMaxStaleSecs

def FreshPrice (past : History) (st : AppState) (feed : String) (price : Nat) : Prop :=
  ∃ now hex value, ⟨.now, now⟩ ∈ past ∧
    Answered past st.rpcUrl
      (rpcBody "eth_call" [.obj [("to", .str feed), ("data", .str latestRoundData)], .str "latest"]) value ∧
    value.asStr = some hex ∧ Fresh hex now price

def Priced (past : History) (st : AppState) (spec : TokenSpec) (amount : Nat) (points : Int) : Prop :=
  ∃ price, points = pointsFor amount spec.decimals price ∧ minTopupPoints ≤ points ∧
    match spec.feed with
    | none => price = none
    | some feed => ∃ value, price = some value ∧ FreshPrice past st feed value

def Paid (past : History) (st : AppState) (addr : String) (spec : TokenSpec) (hash : String) (amount : Nat) : Prop :=
  match spec.chain, spec.contract with
  | .ethereum, none => ∃ tx receipt, SentBy past st addr hash tx ∧ Mined past st hash receipt ∧
      tx.recipient.map st.toLowercase = some st.depositAddress ∧ hexToU128 tx.value = some amount
  | .ethereum, some contract => ∃ tx receipt, SentBy past st addr hash tx ∧ Mined past st hash receipt ∧
      ∃ log ∈ receipt.logs, Transfers st addr contract amount log
  | .solana, _ => ∃ linked value, Wallet past addr linked ∧
      Answered past st.solRpcUrl (transactionBody hash) value ∧
      verifySolana value spec st.solDepositAddress linked = .credited amount

def Evidence (past : History) (st : AppState) (addr : String) (spec : TokenSpec) (earned : Earned) : Prop :=
  Locked past addr spec earned.hash ∧ Paid past st addr spec earned.hash earned.amount ∧
    Priced past st spec earned.amount earned.points

section Grows
variable {past late : History} (grows : past <:+ late)
include grows

theorem Answered.grow {url : String} {body value : Json} (answered : Answered past url body value) :
    Answered late url body value := by
  obtain ⟨fetched, member, result⟩ := answered
  exact ⟨fetched, grows.subset member, result⟩

theorem Locked.grow {addr : String} {spec : TokenSpec} {hash : String} (locked : Locked past addr spec hash) :
    Locked late addr spec hash := by
  obtain ⟨now, member⟩ := locked
  exact ⟨now, grows.subset member⟩

theorem SentBy.grow {st : AppState} {addr hash : String} {tx : RpcTx} (sent : SentBy past st addr hash tx) :
    SentBy late st addr hash tx := by
  obtain ⟨sender, value, answered, decoded⟩ := sent
  exact ⟨sender, value, answered.grow grows, decoded⟩

theorem Mined.grow {st : AppState} {hash : String} {receipt : RpcReceipt} (mined : Mined past st hash receipt) :
    Mined late st hash receipt := by
  obtain ⟨⟨value, answered, decoded⟩, status, block, number, head, top, reported, rest⟩ := mined
  exact ⟨⟨value, answered.grow grows, decoded⟩, status, block, number, head, top, reported.grow grows, rest⟩

theorem Wallet.grow {addr linked : String} (wallet : Wallet past addr linked) : Wallet late addr linked := by
  obtain ⟨reply, member, found⟩ := wallet
  exact ⟨reply, grows.subset member, found⟩

theorem Paid.grow {st : AppState} {addr : String} {spec : TokenSpec} {hash : String} {amount : Nat}
    (paid : Paid past st addr spec hash amount) : Paid late st addr spec hash amount := by
  rw [Paid] at paid ⊢
  split
  next ethereum native =>
    simp only [ethereum, native] at paid
    obtain ⟨tx, receipt, sent, mined, pays⟩ := paid
    exact ⟨tx, receipt, sent.grow grows, mined.grow grows, pays⟩
  next ethereum token =>
    simp only [ethereum, token] at paid
    obtain ⟨tx, receipt, sent, mined, transfers⟩ := paid
    exact ⟨tx, receipt, sent.grow grows, mined.grow grows, transfers⟩
  next solana =>
    simp only [solana] at paid
    obtain ⟨linked, value, wallet, answered, credited⟩ := paid
    exact ⟨linked, value, wallet.grow grows, answered.grow grows, credited⟩

theorem Priced.grow {st : AppState} {spec : TokenSpec} {amount : Nat} {points : Int}
    (priced : Priced past st spec amount points) : Priced late st spec amount points := by
  obtain ⟨price, converted, enough, read⟩ := priced
  refine ⟨price, converted, enough, ?_⟩
  cases feed : spec.feed with
  | none => simpa only [feed] using read
  | some feed' =>
    simp only [feed] at read ⊢
    obtain ⟨value, found, now, hex, answer, clock, answered, rest⟩ := read
    exact ⟨value, found, now, hex, answer, grows.subset clock, answered.grow grows, rest⟩

theorem Evidence.grow {st : AppState} {addr : String} {spec : TokenSpec} {earned : Earned}
    (evidence : Evidence past st addr spec earned) : Evidence late st addr spec earned := by
  obtain ⟨locked, paid, priced⟩ := evidence
  exact ⟨locked.grow grows, paid.grow grows, priced.grow grows⟩

end Grows

theorem answered_cons {past : History} {url : String} {body : Json} {fetched : Fetched} {β : Type}
    {decode : Json → Option β} {found : β} (read : (rpcResult fetched).bind decode = some found) :
    ∃ value, Answered (⟨.fetch url body, fetched⟩ :: past) url body value ∧ decode value = some found := by
  obtain ⟨value, result, decoded⟩ := Option.bind_eq_some_iff.mp read
  exact ⟨value, ⟨fetched, List.mem_cons_self .., result⟩, decoded⟩

theorem isConfirmed_deep {head : Option Nat} {block : Nat} (deep : isConfirmed head block = true) :
    ∃ top, head = some top ∧ block ≤ top ∧ minConfirmations ≤ top - block + 1 := by
  obtain ⟨top, read, confirmed⟩ := (Option.any_eq_true _ _).mp deep
  simp only [Bool.and_eq_true, decide_eq_true_eq] at confirmed
  exact ⟨top, read, confirmed.1, Nat.le_trans confirmed.2 (Nat.mod_le _ _)⟩

/-- What the three calls of an Ethereum verification establish. -/
theorem evidence_cons {past late : History} {st : AppState} {addr hash : String} {spec : TokenSpec} {tx : RpcTx}
    {receipt : RpcReceipt} {block : Nat} {first second third : Fetched} (locked : Locked past addr spec hash)
    (read : (rpcResult first).bind decodeTx = some tx) (sender : st.toLowercase tx.sender = addr)
    (received : (rpcResult second).bind decodeReceipt = some receipt) (status : receipt.status = some "0x1")
    (number : receipt.blockNumber.bind hexToU64 = some block)
    (deep : isConfirmed ((rpcResult third).bind fun value => value.asStr.bind hexToU64) block = true)
    (grows : ⟨.fetch st.rpcUrl (rpcBody "eth_blockNumber" []), third⟩ ::
      ⟨.fetch st.rpcUrl (rpcBody "eth_getTransactionReceipt" [.str hash]), second⟩ ::
      ⟨.fetch st.rpcUrl (rpcBody "eth_getTransactionByHash" [.str hash]), first⟩ :: past <:+ late) :
    Locked late addr spec hash ∧ SentBy late st addr hash tx ∧ Mined late st hash receipt := by
  have after_receipt := (List.suffix_cons ..).trans grows
  have after_tx := (List.suffix_cons ..).trans after_receipt
  obtain ⟨sent, known, decoded⟩ := answered_cons read
  obtain ⟨value, answered, parsed⟩ := answered_cons received
  obtain ⟨top, head, confirmed⟩ := isConfirmed_deep deep
  obtain ⟨result, reported, quantity⟩ := answered_cons head
  refine ⟨locked.grow ((List.suffix_cons ..).trans after_tx), ⟨sender, sent, known.grow after_tx, decoded⟩, ?_⟩
  exact ⟨⟨value, answered.grow after_receipt, parsed⟩, status, block, number, result, top, reported.grow grows, quantity,
    confirmed⟩

theorem decodeLatestRoundData_fresh {hex : String} {now price : Nat}
    (decoded : decodeLatestRoundData hex now = .ok price) : Fresh hex now price := by
  rw [decodeLatestRoundData] at decoded
  cases words : stripPrefix "0x" hex with
  | none => simp [words] at decoded
  | some words' =>
    simp only [words] at decoded
    split at decoded
    · cases decoded
    split at decoded
    · cases decoded
    split at decoded
    · cases decoded
    cases answer : wordToU128 ((words'.toList.drop 64).take 64) with
    | error => simp [answer, bind, Except.bind] at decoded
    | ok value =>
      simp only [Nat.one_mul, answer, bind, Except.bind] at decoded
      split at decoded
      · cases decoded
      next positive =>
        cases updated : wordToU128 ((words'.toList.drop 192).take 64) with
        | error => simp [updated] at decoded
        | ok updatedAt =>
          simp only [updated] at decoded
          split at decoded
          · cases decoded
          split at decoded
          · cases decoded
          next recent =>
            cases decoded
            exact ⟨Nat.pos_of_ne_zero positive, words', updatedAt, words, answer, updated, Nat.not_lt.mp recent⟩

theorem matchLog_transfers {st : AppState} {addr contract : String} {log : RpcLog} {amount : Nat}
    (found : matchLog st.toLowercase contract ((stripPrefix "0x" st.depositAddress).getD st.depositAddress)
      ((stripPrefix "0x" addr).getD addr) log = some (some amount)) : Transfers st addr contract amount log := by
  rw [matchLog] at found
  split at found
  · cases found
  next emitter =>
    split at found
    next topic0 topic1 topic2 more topics =>
      split at found
      · cases found
      next signature =>
        split at found
        · cases found
        next recipient receives =>
          split at found
          · cases found
          next deposit =>
            split at found
            · cases found
            next sender sends =>
              split at found
              · cases found
              next account =>
                rw [Classical.not_not.mp account] at sends
                rw [Classical.not_not.mp deposit] at receives
                exact ⟨Classical.not_not.mp emitter, topic0, topic1, topic2, more, topics,
                  Classical.not_not.mp signature, sends, receives, Option.some.inj found⟩
    · cases found

theorem matchTransferLog_transfers {st : AppState} {addr contract : String} {logs : List RpcLog} {amount : Nat}
    (found : matchTransferLog st.toLowercase contract ((stripPrefix "0x" st.depositAddress).getD st.depositAddress)
      ((stripPrefix "0x" addr).getD addr) logs = some (some amount)) :
    ∃ log ∈ logs, Transfers st addr contract amount log := by
  induction logs with
  | nil => cases found
  | cons log rest ih =>
    rw [matchTransferLog] at found
    split at found
    · obtain ⟨other, member, transfers⟩ := ih found
      exact ⟨other, List.mem_cons_of_mem _ member, transfers⟩
    · exact ⟨log, List.mem_cons_self .., matchLog_transfers found⟩

theorem verifyNativeTx_pays {st : AppState} {tx : RpcTx} {amount : Nat}
    (verified : verifyNativeTx st.toLowercase tx st.depositAddress = .ok amount) :
    tx.recipient.map st.toLowercase = some st.depositAddress ∧ hexToU128 tx.value = some amount := by
  rw [verifyNativeTx] at verified
  split at verified
  · cases verified
  next recipient named =>
    split at verified
    · cases verified
    next deposit =>
      split at verified
      · cases verified
      next value read =>
        cases verified
        exact ⟨by rw [named, Option.map_some, Classical.not_not.mp deposit], read⟩

/-- What a request has done with its row, by the exchanges so far. -/
inductive Phase where
  | quiet
  | holding (addr hash : String)
  | paid (hash : String)
  | failed (hash : String)
  deriving DecidableEq

/-- Where the answer of the account object leaves the holder of a row. -/
def Phase.credit (answered : Bool) : Phase → Phase
  | .holding _ hash => if answered then .paid hash else .failed hash
  | other => other

def Phase.next (phase : Phase) : (command : Command) → command.Reply → Phase
  | .insertPayment hash addr .., .ok () => .holding addr hash
  | .doCredit .., reply => phase.credit reply.isOk
  | .rejectPayment _, _ | .deletePending _, _ | .creditPayment .., _ => .quiet
  | _, _ => phase

def phase : History → Phase
  | [] => .quiet
  | ⟨command, reply⟩ :: past => (phase past).next command reply

/-- What a top-up may ask: it inserts one row, gives it up once, and moves points
on evidence only. -/
def Justified (st : AppState) (session : Option String) (req : TopupReq) (past : History) : Command → Prop
  | .selectSolana _ | .insertPayment .. => phase past = .quiet
  | .rejectPayment hash => ∃ addr, phase past = .holding addr hash
  | .deletePending hash => (∃ addr, phase past = .holding addr hash) ∨ phase past = .failed hash
  | .doCredit addr credit => ∃ spec earned, phase past = .holding addr earned.hash ∧ session = some addr ∧
      resolveSpec st req = .ok spec ∧ rowKey st spec req.txHash = some earned.hash ∧
      Evidence past st addr spec earned ∧ credit = ⟨earned.points, "tx:" ++ earned.hash, "topup"⟩
  | .creditPayment hash amount points => phase past = .paid hash ∧ ∃ addr spec, session = some addr ∧
      resolveSpec st req = .ok spec ∧ Evidence past st addr spec ⟨hash, amount, points⟩
  | _ => True

section Steps
variable {st : AppState} {session : Option String} {req : TopupReq} {past : History} {addr hash : String}
  {spec : TokenSpec}

abbrev Leads {α : Type} (st : AppState) (session : Option String) (req : TopupReq) (ok : History → α → Prop)
    (step : Handler α) (past : History) : Prop :=
  step.wp (Program.recording (Justified st session req)) ok (fun _ _ => True) past

theorem holding_releases (holds : phase past = .holding addr hash) :
    Releases (Program.recording (Justified st session req)) (fun _ _ => True) hash past :=
  Program.step_recording.mpr ⟨.inl ⟨addr, holds⟩, fun _ _ => trivial⟩

theorem holding_rejects (holds : phase past = .holding addr hash) :
    Rejects (Program.recording (Justified st session req)) (fun _ _ => True) hash past :=
  Program.step_recording.mpr ⟨⟨addr, holds⟩, fun _ _ => trivial⟩

theorem lock_leads {ok : History → Unit → Prop} (quiet : phase past = .quiet)
    (next : ∀ late, past <:+ late → phase late = .holding addr hash → Locked late addr spec hash → ok late ()) :
    Leads st session req ok (lock addr spec hash) past := by
  refine lock_rule (Program.step_recording.mpr ⟨trivial, fun now =>
    Program.step_recording.mpr ⟨quiet, fun reply => ⟨?_, fun _ _ => trivial⟩⟩⟩)
  rintro rfl
  exact next _ ((List.suffix_cons ..).trans (List.suffix_cons ..)) rfl ⟨now, List.mem_cons_self ..⟩

theorem lockHash_leads {ok : History → String → Prop} {text : String} (ethereum : spec.chain = .ethereum)
    (quiet : phase past = .quiet) (next : ∀ late hash, phase late = .holding addr hash → rowKey st spec text = some hash →
      Locked late addr spec hash → ok late hash) : Leads st session req ok (lockHash st addr spec text) past := by
  refine lockHash_rule (fun valid => lock_leads quiet fun late _ holds locked => ?_) fun _ _ => trivial
  exact next late _ holds (by simp [rowKey, ethereum, valid]) locked

theorem price_leads {ok : History → Int → Prop} {amount : Nat} (holds : phase past = .holding addr hash)
    (next : ∀ late points, past <:+ late → phase late = .holding addr hash → Priced late st spec amount points →
      ok late points) : Leads st session req ok (price st spec hash amount) past := by
  apply price_rule
  cases feed : spec.feed with
  | none =>
    refine ⟨fun enough => ?_, fun _ => holding_rejects holds⟩
    exact next past _ (List.suffix_refl past) holds ⟨none, rfl, enough, by rw [feed]⟩
  | some feed' =>
    refine Program.step_recording.mpr ⟨trivial, fun now => Program.step_recording.mpr ⟨trivial, fun fetched =>
      ⟨fun value read => ⟨fun enough => ?_, fun _ => holding_rejects holds⟩, fun _ => holding_releases holds⟩⟩⟩
    refine next _ _ ((List.suffix_cons ..).trans (List.suffix_cons ..)) holds ⟨some value, rfl, enough, ?_⟩
    obtain ⟨hex, text, decoded⟩ := Option.bind_eq_some_iff.mp read
    obtain ⟨result, answered, string⟩ := answered_cons text
    rw [feed]
    refine ⟨value, rfl, now, hex, result, List.mem_cons_of_mem _ (List.mem_cons_self ..), answered, string, ?_⟩
    cases fresh : decodeLatestRoundData hex now with
    | error message => simp [fresh, Except.toOption] at decoded
    | ok answer =>
      simp only [fresh, Except.toOption, Option.some.injEq] at decoded
      exact decoded ▸ decodeLatestRoundData_fresh fresh

def Earns (st : AppState) (addr : String) (spec : TokenSpec) (text : String) (late : History) (earned : Earned) :
    Prop :=
  phase late = .holding addr earned.hash ∧ rowKey st spec text = some earned.hash ∧ Evidence late st addr spec earned

theorem earnNative_leads {text : String} (native : spec.contract = none) (ethereum : spec.chain = .ethereum)
    (quiet : phase past = .quiet) :
    Leads st session req (Earns st addr spec text) (earnNative st addr spec text) past := by
  simp only [Leads, earnNative, Handler.wp_bind]
  apply lockHash_leads ethereum quiet
  intro past₁ hash holds named locked
  refine fetchTx_rule (Program.step_recording.mpr ⟨trivial, fun fetched =>
    ⟨fun tx read => ?_, fun _ => holding_releases holds⟩⟩)
  cases verified : verifyNativeTx st.toLowercase tx st.depositAddress with
  | error message => exact (Handler.wp_bind _ _).mpr (reject_rule (holding_rejects holds))
  | ok amount =>
    simp only [Handler.wp_bind, Handler.wp_pure]
    refine checkSender_rule (fun sender => ?_) fun _ => holding_releases holds
    refine fetchReceipt_rule (Program.step_recording.mpr ⟨trivial, fun fetched' =>
      ⟨fun receipt received => ?_, fun _ => holding_releases holds⟩⟩)
    refine minedBlock_rule (fun block status number => ?_) (fun _ _ _ => holding_rejects holds) fun _ =>
      holding_releases holds
    refine confirm_rule (Program.step_recording.mpr ⟨trivial, fun fetched'' =>
      ⟨fun deep => ?_, fun _ => holding_releases holds⟩⟩)
    refine price_leads (by exact holds) ?_
    intro late points grows holds priced
    obtain ⟨locked, sent, mined⟩ := evidence_cons locked read sender received status number deep grows
    refine ⟨holds, named, locked, ?_, priced⟩
    simp only [Paid, ethereum, native]
    exact ⟨tx, receipt, sent, mined, verifyNativeTx_pays verified⟩

theorem earnErc20_leads {contract text : String} (token : spec.contract = some contract)
    (ethereum : spec.chain = .ethereum) (quiet : phase past = .quiet) :
    Leads st session req (Earns st addr spec text) (earnErc20 st addr spec contract text) past := by
  simp only [Leads, earnErc20, Handler.wp_bind]
  apply lockHash_leads ethereum quiet
  intro past₁ hash holds named locked
  refine fetchTx_rule (Program.step_recording.mpr ⟨trivial, fun fetched =>
    ⟨fun tx read => ?_, fun _ => holding_releases holds⟩⟩)
  refine checkSender_rule (fun sender => ?_) fun _ => holding_releases holds
  refine fetchReceipt_rule (Program.step_recording.mpr ⟨trivial, fun fetched' =>
    ⟨fun receipt received => ?_, fun _ => holding_releases holds⟩⟩)
  refine minedBlock_rule (fun block status number => ?_) (fun _ _ _ => holding_rejects holds) fun _ =>
    holding_releases holds
  cases found : matchTransferLog st.toLowercase contract
      ((stripPrefix "0x" st.depositAddress).getD st.depositAddress) ((stripPrefix "0x" addr).getD addr)
      receipt.logs with
  | none => exact (Handler.wp_bind _ _).mpr ((Handler.wp_throw _).mpr trivial)
  | some transfer =>
    cases transfer with
    | none => exact (Handler.wp_bind _ _).mpr (reject_rule (holding_rejects holds))
    | some amount =>
      simp only [Handler.wp_bind, Handler.wp_pure]
      refine confirm_rule (Program.step_recording.mpr ⟨trivial, fun fetched'' =>
        ⟨fun deep => ?_, fun _ => holding_releases holds⟩⟩)
      refine price_leads (by exact holds) ?_
      intro late points grows holds priced
      obtain ⟨locked, sent, mined⟩ := evidence_cons locked read sender received status number deep grows
      refine ⟨holds, named, locked, ?_, priced⟩
      simp only [Paid, ethereum, token]
      exact ⟨tx, receipt, sent, mined, matchTransferLog_transfers found⟩

theorem earnSolana_leads {text : String} (solana : spec.chain = .solana) (quiet : phase past = .quiet) :
    Leads st session req (Earns st addr spec text) (earnSolana st addr spec text) past := by
  simp only [Leads, earnSolana, Handler.wp_bind]
  refine require_rule (fun valid => ?_) fun _ => (Handler.wp_throw _).mpr trivial
  have named : rowKey st spec text = some (trim text) := by simp [rowKey, solana, valid]
  refine solanaWallet_rule (Program.step_recording.mpr ⟨quiet, fun reply =>
    ⟨fun linked looked => ?_, fun _ _ => trivial⟩⟩)
  refine lock_leads (by exact quiet) ?_
  intro past₁ grows₁ holds locked
  refine topupSolana_rule (Program.step_recording.mpr ⟨trivial, fun fetched => ⟨fun value final => ?_, fun _ =>
    ⟨(Handler.wp_bind _ _).mpr (release_rule (holding_releases holds)),
      (Handler.wp_bind _ _).mpr (release_rule (holding_releases holds))⟩⟩⟩)
  cases verified : verifySolana value spec st.solDepositAddress linked with
  | credited amount =>
    simp only [Handler.wp_bind, Handler.wp_pure]
    refine price_leads (by exact holds) ?_
    intro late points grows holds priced
    refine ⟨holds, named, locked.grow ((List.suffix_cons ..).trans grows), ?_, priced⟩
    have wallet : Wallet _ addr linked := Wallet.grow grows₁ ⟨reply, List.mem_cons_self .., looked⟩
    have transaction := (Option.filter_eq_some_iff.mp final).1
    have answered : Answered _ st.solRpcUrl (transactionBody (trim text)) value :=
      Answered.grow grows ⟨fetched, List.mem_cons_self .., transaction⟩
    simp only [Paid, solana]
    exact ⟨linked, value, wallet.grow ((List.suffix_cons ..).trans grows), answered, verified⟩
  | reject message => exact (Handler.wp_bind _ _).mpr (reject_rule (holding_rejects holds))
  | _ => exact (Handler.wp_bind _ _).mpr (release_rule (holding_releases holds))

theorem earn_leads {text : String} (quiet : phase past = .quiet) :
    Leads st session req (Earns st addr spec text) (earn st addr spec text) past := by
  rw [earn]
  cases chain : spec.chain with
  | solana => exact earnSolana_leads chain quiet
  | ethereum =>
    cases token : spec.contract with
    | none => exact earnNative_leads token chain quiet
    | some contract => exact earnErc20_leads token chain quiet

theorem finalizeCredit_leads {earned : Earned} (resolved : resolveSpec st req = .ok spec)
    (earns : Earns st addr spec req.txHash past earned) :
    Leads st (some addr) req (fun _ (_ : Answer) => True) (finalizeCredit addr earned) past := by
  obtain ⟨holds, named, evidence⟩ := earns
  simp only [Leads, finalizeCredit, Handler.wp_bind, Handler.wp_perform]
  refine Program.step_recording.mpr ⟨⟨spec, earned, holds, rfl, resolved, named, evidence, rfl⟩, fun reply => ?_⟩
  cases reply with
  | error failure =>
    apply release_rule
    refine Program.step_recording.mpr ⟨.inr ?_, fun _ _ => trivial⟩
    change (phase past).credit false = _
    rw [holds]
    rfl
  | ok resp =>
    simp only [Handler.wp_bind, Handler.wp_perform, Handler.wp_pure]
    refine Program.step_recording.mpr ⟨⟨?_, addr, spec, rfl, resolved, evidence.grow (List.suffix_cons ..)⟩, fun _ => trivial⟩
    change (phase past).credit true = _
    rw [holds]
    rfl

end Steps

theorem topup_justified (st : AppState) (session : Option String) (req : TopupReq) :
    Leads st session req (fun _ (_ : Answer) => True) (topup st session req) [] := by
  unfold topup
  cases session with
  | none => exact (Handler.wp_throw _).mpr trivial
  | some addr =>
    dsimp only
    cases resolved : resolveSpec st req with
    | error message => exact (Handler.wp_throw _).mpr trivial
    | ok spec =>
      simp only [Leads, Handler.wp_bind]
      apply Handler.wp_mono (earn_leads rfl)
      · exact fun late earned earns => finalizeCredit_leads resolved earns
      · exact fun _ _ => id

/-- However the services answer, every credit of a top-up has its evidence among
the exchanges that came before it. -/
theorem credit_earned (st : AppState) (session : Option String) (req : TopupReq)
    (oracle : History → (command : Command) → command.Reply) {later earlier : History} {addr : String}
    {credit : CreditReq} {reply : Except Failure BalanceResp}
    (reached : ((topup st session req).run.run (Program.converse oracle) []).2 =
      later ++ ⟨.doCredit addr credit, reply⟩ :: earlier) :
    ∃ spec earned, session = some addr ∧ resolveSpec st req = .ok spec ∧
      rowKey st spec req.txHash = some earned.hash ∧ Evidence earlier st addr spec earned ∧
      credit = ⟨earned.points, "tx:" ++ earned.hash, "topup"⟩ := by
  obtain ⟨spec, earned, _, backed⟩ := Handler.asked_of_wp (topup_justified st session req) oracle reached
  exact ⟨spec, earned, backed⟩

section Example

def account (digit : Char) : String := "0x" ++ String.ofList (List.replicate 40 digit)

def sampleWallet : String := "FVen3X669xLzsi6N2V91DoiyzHzg1uAgqiT8jZ9nS96Z"
def sampleSignature : String := "4oLH6CpHhzin98cKDaJbhZVn7tQgEYL1nWYMYWwNPqLiviZQpfs3228D7mbpFvuXCikztAtq7P3xEMqrGVDBggND"

/-- What signatures are verified below are valid. -/
def sampleState : AppState :=
  ⟨id, fun _ _ _ => true, "https://ethereum.example", account 'd', "https://solana.example",
    "586Z7H2vpX9qNhN2T4e9Utugie3ogjbxzGaMtM3E6HR5", "localhost"⟩

def usdcTransfer : Json :=
  .obj [("meta", .obj [("err", .null), ("preTokenBalances", .arr []), ("postTokenBalances", .arr [.obj [
      ("accountIndex", .unsigned 1), ("mint", .str "EPjFWdd5AufqSSqeM2qN1xzybapC8G4wEGGkZwyTDt1v"),
      ("owner", .str sampleState.solDepositAddress), ("uiTokenAmount", .obj [("amount", .str "1000000")])]])]),
    ("transaction", .obj [("message", .obj [("accountKeys", .arr [.str sampleWallet])])])]

def deposited : Fetched := .answered 200 (some (.obj [("result", usdcTransfer)]))

def credits (addr : String) (credit : CreditReq) : Exchange Command Command.Reply → Bool
  | ⟨.doCredit other req, _⟩ => decide (other = addr) && decide (req = credit)
  | _ => false

theorem reached_of_credits {history : History} {addr : String} {credit : CreditReq}
    (found : history.any (credits addr credit) = true) :
    ∃ later reply earlier, history = later ++ ⟨.doCredit addr credit, reply⟩ :: earlier := by
  obtain ⟨⟨command, reply⟩, member, same⟩ := List.any_eq_true.mp found
  cases command with
  | doCredit other req =>
    obtain ⟨rfl, rfl⟩ : other = addr ∧ req = credit := by simpa [credits] using same
    obtain ⟨later, earlier, split⟩ := List.append_of_mem member
    exact ⟨later, reply, earlier, split⟩
  | _ => cases same

theorem credit_earned_usdc :
    let addr := account 'a'
    let req : TopupReq := ⟨"solana", "usdc", sampleSignature⟩
    let w : World := ⟨fun _ => none, [⟨addr, 0, 0, false, some sampleWallet⟩], fun _ => false, fun _ => {}⟩
    let oracle (_ : History) (command : Command) : command.Reply := (serve w command ⟨.none, 0, deposited⟩).1
    let history := ((topup sampleState (some addr) req).run.run (Program.converse oracle) []).2
    ∃ earlier, earlier <:+ history ∧ ∃ spec earned, some addr = some addr ∧ resolveSpec sampleState req = .ok spec ∧
      rowKey sampleState spec req.txHash = some earned.hash ∧ Evidence earlier sampleState addr spec earned ∧
      (⟨10_000, "tx:" ++ req.txHash, "topup"⟩ : CreditReq) = ⟨earned.points, "tx:" ++ earned.hash, "topup"⟩ := by
  intro addr req w oracle history
  obtain ⟨later, reply, earlier, reached⟩ : ∃ later reply earlier, history =
      later ++ ⟨.doCredit addr ⟨10_000, "tx:" ++ req.txHash, "topup"⟩, reply⟩ :: earlier :=
    reached_of_credits (by decide +kernel)
  refine ⟨earlier, ?_, credit_earned sampleState (some addr) req oracle reached⟩
  rw [reached]
  exact (List.suffix_cons ..).trans (List.suffix_append ..)

end Example

end LetsEmbed.Payments
