import LetsEmbed.Proofs.PaymentsRules
import LetsEmbed.Proofs.ServicesSteps

/-! Top-ups without failures, while the node's answers stay as they are. What a
submission comes to is then a function of the chain's data, and the handlers
compute it. -/

namespace LetsEmbed.Payments
open Account Config Rates Solana Session Systems Text

abbrev Node := String → Json → Fetched

/-- Services without failures, over the node's answers. -/
def serving (node : Node) (now : Nat) (w : World) (command : Command) : command.Reply × World :=
  serve w command ⟨.none, now, match command with | .fetch url body => node url body | _ => .failed⟩

namespace Node
variable (node : Node) (st : AppState) (hash : String)

def tx : Option RpcTx :=
  (rpcResult (node st.rpcUrl (rpcBody "eth_getTransactionByHash" [.str hash]))).bind decodeTx

def receipt : Option RpcReceipt :=
  (rpcResult (node st.rpcUrl (rpcBody "eth_getTransactionReceipt" [.str hash]))).bind decodeReceipt

def head : Option Nat :=
  (rpcResult (node st.rpcUrl (rpcBody "eth_blockNumber" []))).bind fun value => value.asStr.bind hexToU64

def transaction : Option Json := finalTransaction (node st.solRpcUrl (transactionBody hash))

/-- The price of the token: nothing when it cannot be read, `some none` for a
stablecoin. -/
def price (now : Nat) (spec : TokenSpec) : Option (Option Nat) :=
  match spec.feed with
  | none => some none
  | some feed => (feedPrice (node st.rpcUrl (feedCall feed)) now).map some

end Node

/-- What a locked submission comes to: a credit, a rejected row, a row left
behind by a panic, or a released row. -/
inductive Verdict where
  | earned (amount : Nat) (points : Int)
  | burnt
  | stuck
  | retry
  deriving DecidableEq

section Verdicts
variable (st : AppState) (node : Node) (now : Nat) (addr : String) (spec : TokenSpec) (hash : String)

def worth (amount : Nat) : Verdict :=
  match node.price st now spec with
  | none => .retry
  | some price =>
    let points := pointsFor amount spec.decimals price
    if minTopupPoints ≤ points then .earned amount points else .burnt

def mined (receipt : RpcReceipt) (next : Nat → Verdict) : Verdict :=
  match receipt.status with
  | none => .retry
  | some status =>
    if status ≠ "0x1" then .burnt
    else
      match receipt.blockNumber.bind hexToU64 with
      | none => .retry
      | some block => next block

def nativeVerdict : Verdict :=
  match node.tx st hash with
  | none => .retry
  | some tx =>
    match verifyNativeTx st.toLowercase tx st.depositAddress with
    | .error _ => .burnt
    | .ok amount =>
      if st.toLowercase tx.sender = addr then
        match node.receipt st hash with
        | none => .retry
        | some receipt => mined receipt fun block =>
          if isConfirmed (node.head st) block then worth st node now spec amount else .retry
      else .retry

/-- The first matching transfer of a receipt; the outer option is a panic. -/
def transferred (contract : String) (receipt : RpcReceipt) : Option (Option Nat) :=
  matchTransferLog st.toLowercase contract ((stripPrefix "0x" st.depositAddress).getD st.depositAddress)
    ((stripPrefix "0x" addr).getD addr) receipt.logs

def erc20Verdict (contract : String) : Verdict :=
  match node.tx st hash with
  | none => .retry
  | some tx =>
    if st.toLowercase tx.sender = addr then
      match node.receipt st hash with
      | none => .retry
      | some receipt => mined receipt fun block =>
        match transferred st addr contract receipt with
        | none => .stuck
        | some none => .burnt
        | some (some amount) => if isConfirmed (node.head st) block then worth st node now spec amount else .retry
    else .retry

def solanaVerdict (wallet : String) : Verdict :=
  match node.transaction st hash with
  | none => .retry
  | some value =>
    match verifySolana value spec st.solDepositAddress wallet with
    | .credited amount => worth st node now spec amount
    | .reject _ => .burnt
    | .wrongSender | .tooEarly | .rpcError => .retry

def payer (w : World) (addr : String) : Option String := walletOf addr (.ok ((w.user addr).map (·.solanaAddress)))

def verdict (w : World) : Verdict :=
  match spec.chain, spec.contract with
  | .ethereum, none => nativeVerdict st node now addr spec hash
  | .ethereum, some contract => erc20Verdict st node now addr spec hash contract
  | .solana, _ =>
    match payer w addr with
    | none => .retry
    | some wallet => solanaVerdict st node now spec hash wallet

end Verdicts

def Verdict.row (inserted : PaymentRow) : Verdict → Option PaymentRow
  | .earned .. | .stuck => some inserted
  | .burnt => some { inserted with status := .rejected }
  | .retry => none

def inserted (addr : String) (spec : TokenSpec) (now : Nat) : PaymentRow :=
  ⟨addr, spec.chain.asStr, spec.symbol, 0, 0, .pending, now⟩

def settles (w : World) (hash : String) (row : PaymentRow) (verdict : Verdict) (late : World) (earned : Earned) : Prop :=
  verdict = .earned earned.amount earned.points ∧ earned.hash = hash ∧ late = w.setPayment hash (some row)

def quits (w : World) (hash : String) (row : PaymentRow) (verdict : Verdict) (late : World) (_ : Answer) : Prop :=
  (∀ amount points, verdict ≠ .earned amount points) ∧ late = w.setPayment hash (verdict.row row)

section Ends
variable {node : Node} {now : Nat} {w : World} {hash : String} {row : PaymentRow} {verdict : Verdict}

theorem quits_burnt (burnt : verdict = .burnt) :
    Rejects (Program.steady (serving node now)) (quits w hash row verdict) hash (w.setPayment hash (some row)) := by
  subst burnt
  exact Program.step_steady.mpr fun _ => ⟨by simp, World.updateStatus_setPayment⟩

theorem quits_retry (pending : row.status = .pending) (retry : verdict = .retry) :
    Releases (Program.steady (serving node now)) (quits w hash row verdict) hash (w.setPayment hash (some row)) := by
  subst retry
  exact Program.step_steady.mpr fun _ => ⟨by simp, World.deletePending_setPayment pending⟩

theorem quits_stuck (stuck : verdict = .stuck) (answer : Answer) :
    quits w hash row verdict (w.setPayment hash (some row)) answer := by
  subst stuck
  exact ⟨by simp, rfl⟩

theorem quits_unlocked (free : w.payments hash = none) (retry : verdict = .retry) (answer : Answer) :
    quits w hash row verdict w answer := by
  subst retry
  exact ⟨by simp, (World.setPayment_self free).symm⟩

end Ends

section Handlers
variable {node : Node} {now : Nat} {w : World} {st : AppState} {addr text hash : String} {spec : TokenSpec}

theorem lock_wp {ok : World → Unit → Prop} {exit : World → Answer → Prop}
    (free : w.payments hash = none → ok (w.setPayment hash (some (inserted addr spec now))) ())
    (taken : w.payments hash ≠ none → ∀ answer, exit w answer) :
    (lock addr spec hash).wp (Program.steady (serving node now)) ok exit w := by
  refine lock_rule (Program.step_steady.mpr (Program.step_steady.mpr ?_))
  simp only [serving, serve, Fault.apply, World.insertPayment]
  cases row : w.payments hash with
  | none => exact ⟨fun _ => free row, fun refused => (refused rfl).elim⟩
  | some row' =>
    constructor
    · intro inserted
      cases inserted
    · exact fun _ => taken (by simp [row])

theorem price_wp {amount : Nat} {verdict : Verdict} (comes : verdict = worth st node now spec amount) :
    (price st spec hash amount).wp (Program.steady (serving node now))
      (fun late points => settles w hash (inserted addr spec now) verdict late ⟨hash, amount, points⟩)
      (quits w hash (inserted addr spec now) verdict) (w.setPayment hash (some (inserted addr spec now))) := by
  apply price_rule
  rw [worth, Node.price] at comes
  cases feed : spec.feed with
  | none =>
    simp only [feed] at comes
    refine ⟨fun enough => ⟨?_, rfl, rfl⟩, fun below => quits_burnt ?_⟩
    · rw [comes, if_pos enough]
    · rw [comes, if_neg below]
  | some feed' =>
    simp only [feed] at comes
    refine Program.step_steady.mpr (Program.step_steady.mpr ⟨fun value read => ?_, fun unread => quits_retry rfl ?_⟩)
    · have priced : feedPrice (node st.rpcUrl (feedCall feed')) now = some value := read
      simp only [priced, Option.map_some] at comes
      refine ⟨fun enough => ⟨?_, rfl, rfl⟩, fun below => quits_burnt ?_⟩
      · rw [comes, if_pos enough]
      · rw [comes, if_neg below]
    · have unpriced : feedPrice (node st.rpcUrl (feedCall feed')) now = none := unread
      rw [comes, unpriced]
      rfl

theorem minedBlock_wp {ok : World → Nat → Prop} {receipt : RpcReceipt} {verdict : Verdict} {next : Nat → Verdict}
    (comes : verdict = mined receipt next)
    (done : ∀ block, verdict = next block → ok (w.setPayment hash (some (inserted addr spec now))) block) :
    (minedBlock hash receipt).wp (Program.steady (serving node now)) ok
      (quits w hash (inserted addr spec now) verdict) (w.setPayment hash (some (inserted addr spec now))) := by
  refine minedBlock_rule (fun block status number => done block ?_) (fun status found reverted => quits_burnt ?_)
    fun pending => quits_retry rfl ?_
  · simp [comes, mined, status, number]
  · simp [comes, mined, found, reverted]
  · rcases pending with missing | ⟨status, number⟩
    · simp [comes, mined, missing]
    · simp [comes, mined, status, number]

theorem confirm_wp {block amount : Nat} {ok : World → Unit → Prop} {verdict : Verdict}
    (comes : verdict = if isConfirmed (node.head st) block then worth st node now spec amount else .retry)
    (done : verdict = worth st node now spec amount → ok (w.setPayment hash (some (inserted addr spec now))) ()) :
    (confirm st hash block).wp (Program.steady (serving node now)) ok
      (quits w hash (inserted addr spec now) verdict) (w.setPayment hash (some (inserted addr spec now))) := by
  refine confirm_rule (Program.step_steady.mpr ⟨fun deep => done ?_, fun shallow => quits_retry rfl ?_⟩)
  · exact comes.trans (if_pos deep)
  · exact comes.trans (if_neg (Bool.eq_false_iff.mp shallow))

theorem earnNative_wp (ethereum : spec.chain = .ethereum) (native : spec.contract = none)
    (named : rowKey st spec text = some hash) (free : w.payments hash = none) :
    (earnNative st addr spec text).wp (Program.steady (serving node now))
      (settles w hash (inserted addr spec now) (verdict st node now addr spec hash w))
      (quits w hash (inserted addr spec now) (verdict st node now addr spec hash w)) w := by
  have comes : verdict st node now addr spec hash w = nativeVerdict st node now addr spec hash := by
    simp [verdict, ethereum, native]
  rw [comes]
  simp only [rowKey, ethereum, Option.ite_none_right_eq_some, Option.some.injEq] at named
  obtain ⟨valid, rfl⟩ := named
  simp only [earnNative, Handler.wp_bind]
  refine lockHash_rule (fun _ => lock_wp (fun _ => ?_) fun taken => absurd free taken) fun invalid =>
    absurd valid (by simp [invalid])
  refine fetchTx_rule (Program.step_steady.mpr ⟨fun tx read => ?_, fun missing => quits_retry rfl ?_⟩)
  · have found : node.tx st (st.toLowercase (trim text)) = some tx := read
    cases verified : verifyNativeTx st.toLowercase tx st.depositAddress with
    | error message =>
      exact (Handler.wp_bind _ _).mpr (reject_rule (quits_burnt (by simp [nativeVerdict, found, verified])))
    | ok amount =>
      simp only [Handler.wp_bind, Handler.wp_pure]
      refine checkSender_rule (fun sender => ?_) fun foreign => quits_retry rfl ?_
      · refine fetchReceipt_rule (Program.step_steady.mpr ⟨fun receipt read => ?_, fun missing => quits_retry rfl ?_⟩)
        · have received : node.receipt st (st.toLowercase (trim text)) = some receipt := read
          have past : nativeVerdict st node now addr spec (st.toLowercase (trim text)) = mined receipt fun block =>
              if isConfirmed (node.head st) block then worth st node now spec amount else .retry := by
            simp [nativeVerdict, found, verified, sender, received]
          exact minedBlock_wp past fun block past => confirm_wp past fun past => price_wp past
        · have unread : node.receipt st (st.toLowercase (trim text)) = none := missing
          simp [nativeVerdict, found, verified, sender, unread]
      · simp [nativeVerdict, found, verified, foreign]
  · have unread : node.tx st (st.toLowercase (trim text)) = none := missing
    simp [nativeVerdict, unread]

theorem earnErc20_wp {contract : String} (ethereum : spec.chain = .ethereum) (token : spec.contract = some contract)
    (named : rowKey st spec text = some hash) (free : w.payments hash = none) :
    (earnErc20 st addr spec contract text).wp (Program.steady (serving node now))
      (settles w hash (inserted addr spec now) (verdict st node now addr spec hash w))
      (quits w hash (inserted addr spec now) (verdict st node now addr spec hash w)) w := by
  have comes : verdict st node now addr spec hash w = erc20Verdict st node now addr spec hash contract := by
    simp [verdict, ethereum, token]
  rw [comes]
  simp only [rowKey, ethereum, Option.ite_none_right_eq_some, Option.some.injEq] at named
  obtain ⟨valid, rfl⟩ := named
  simp only [earnErc20, Handler.wp_bind]
  refine lockHash_rule (fun _ => lock_wp (fun _ => ?_) fun taken => absurd free taken) fun invalid =>
    absurd valid (by simp [invalid])
  refine fetchTx_rule (Program.step_steady.mpr ⟨fun tx read => ?_, fun missing => quits_retry rfl ?_⟩)
  · have found : node.tx st (st.toLowercase (trim text)) = some tx := read
    refine checkSender_rule (fun sender => ?_) fun foreign => quits_retry rfl ?_
    · refine fetchReceipt_rule (Program.step_steady.mpr ⟨fun receipt read => ?_, fun missing => quits_retry rfl ?_⟩)
      · have received : node.receipt st (st.toLowercase (trim text)) = some receipt := read
        have past : erc20Verdict st node now addr spec (st.toLowercase (trim text)) contract =
            mined receipt fun block =>
              match transferred st addr contract receipt with
              | none => .stuck
              | some none => .burnt
              | some (some amount) =>
                if isConfirmed (node.head st) block then worth st node now spec amount else .retry := by
          simp [erc20Verdict, found, sender, received]
        refine minedBlock_wp past fun block past => ?_
        rcases transfer : transferred st addr contract receipt with _ | _ | amount
        all_goals
          rw [transfer] at past
          rw [transferred] at transfer
          rw [transfer]
        · exact (Handler.wp_bind _ _).mpr ((Handler.wp_throw _).mpr (quits_stuck past _))
        · exact (Handler.wp_bind _ _).mpr (reject_rule (quits_burnt past))
        · simp only [Handler.wp_bind, Handler.wp_pure]
          exact confirm_wp past fun past => price_wp past
      · have unread : node.receipt st (st.toLowercase (trim text)) = none := missing
        simp [erc20Verdict, found, sender, unread]
    · simp [erc20Verdict, found, foreign]
  · have unread : node.tx st (st.toLowercase (trim text)) = none := missing
    simp [erc20Verdict, unread]

theorem earnSolana_wp (solana : spec.chain = .solana) (named : rowKey st spec text = some hash)
    (free : w.payments hash = none) :
    (earnSolana st addr spec text).wp (Program.steady (serving node now))
      (settles w hash (inserted addr spec now) (verdict st node now addr spec hash w))
      (quits w hash (inserted addr spec now) (verdict st node now addr spec hash w)) w := by
  have comes : verdict st node now addr spec hash w =
      match payer w addr with
      | none => .retry
      | some wallet => solanaVerdict st node now spec hash wallet := by
    simp [verdict, solana]
  rw [comes]
  simp only [rowKey, solana, Option.ite_none_right_eq_some, Option.some.injEq] at named
  obtain ⟨valid, rfl⟩ := named
  simp only [earnSolana, Handler.wp_bind]
  refine require_rule (fun _ => ?_) fun invalid => absurd valid (by simp [invalid])
  refine solanaWallet_rule (Program.step_steady.mpr ⟨fun wallet looked => ?_, fun unpaid answer => ?_⟩)
  · have pays : payer w addr = some wallet := looked
    simp only [pays]
    refine lock_wp (fun _ => ?_) fun taken => absurd free taken
    refine topupSolana_rule (Program.step_steady.mpr ⟨fun value read => ?_, fun missing => ?_⟩)
    · have final : node.transaction st (trim text) = some value := read
      have past : solanaVerdict st node now spec (trim text) wallet =
          match verifySolana value spec st.solDepositAddress wallet with
          | .credited amount => worth st node now spec amount
          | .reject _ => .burnt
          | .wrongSender | .tooEarly | .rpcError => .retry := by
        simp [solanaVerdict, final]
      cases verified : verifySolana value spec st.solDepositAddress wallet with
      | credited amount =>
        rw [verified] at past
        simp only [Handler.wp_bind, Handler.wp_pure]
        exact price_wp past
      | reject message =>
        rw [verified] at past
        exact (Handler.wp_bind _ _).mpr (reject_rule (quits_burnt past))
      | _ =>
        rw [verified] at past
        exact (Handler.wp_bind _ _).mpr (release_rule (quits_retry rfl past))
    · have unread : node.transaction st (trim text) = none := missing
      have past : solanaVerdict st node now spec (trim text) wallet = .retry := by simp [solanaVerdict, unread]
      constructor
      · exact (Handler.wp_bind _ _).mpr (release_rule (quits_retry rfl past))
      · exact (Handler.wp_bind _ _).mpr (release_rule (quits_retry rfl past))
  · have missing : payer w addr = none := unpaid
    exact quits_unlocked free (by simp [missing]) answer

/-- On a free row, verification computes the verdict. -/
theorem earn_wp (node : Node) (now : Nat) (addr : String) (named : rowKey st spec text = some hash)
    (free : w.payments hash = none) :
    (earn st addr spec text).wp (Program.steady (serving node now))
      (settles w hash (inserted addr spec now) (verdict st node now addr spec hash w))
      (quits w hash (inserted addr spec now) (verdict st node now addr spec hash w)) w := by
  rw [earn]
  cases chain : spec.chain with
  | solana => exact earnSolana_wp chain named free
  | ethereum =>
    cases token : spec.contract with
    | none => exact earnNative_wp chain token named free
    | some contract => exact earnErc20_wp chain token named free

/-- A text that names no row, or a row that exists, leaves everything alone. -/
theorem earn_idle (node : Node) (now : Nat) (addr : String)
    (idle : ∀ hash, rowKey st spec text = some hash → w.payments hash ≠ none) :
    (earn st addr spec text).wp (Program.steady (serving node now)) (fun _ _ => False) (fun late _ => late = w) w := by
  have locked (ethereum : spec.chain = .ethereum) : (lockHash st addr spec text).wp
      (Program.steady (serving node now)) (fun _ _ => False) (fun late _ => late = w) w := by
    refine lockHash_rule (fun valid => ?_) fun _ _ => rfl
    have taken := idle (st.toLowercase (trim text)) (by simp [rowKey, ethereum, valid])
    exact lock_wp (fun free => (taken free).elim) fun _ _ => rfl
  rw [earn]
  cases chain : spec.chain with
  | solana =>
    simp only [earnSolana, Handler.wp_bind]
    refine require_rule (fun valid => ?_) fun _ => (Handler.wp_throw _).mpr rfl
    have taken := idle (trim text) (by simp [rowKey, chain, valid])
    exact solanaWallet_rule (Program.step_steady.mpr ⟨fun _ _ =>
      lock_wp (fun free => (taken free).elim) fun _ _ => rfl, fun _ _ => rfl⟩)
  | ethereum =>
    cases token : spec.contract with
    | none =>
      simp only [earnNative, Handler.wp_bind]
      exact Handler.wp_mono (locked chain) (fun _ _ => False.elim) fun _ _ => id
    | some contract =>
      simp only [earnErc20, Handler.wp_bind]
      exact Handler.wp_mono (locked chain) (fun _ _ => False.elim) fun _ _ => id

end Handlers

def Verdict.final (inserted : PaymentRow) : Verdict → Option PaymentRow
  | .earned amount points => some { inserted with amount := amount, points := points, status := .credited }
  | verdict => verdict.row inserted

theorem finalizeCredit_wp {node : Node} {now : Nat} {w : World} {ok : World → Answer → Prop}
    {exit : World → Answer → Prop} {addr : String} {earned : Earned} {row : PaymentRow}
    (done : ∀ late answer, late.users = w.users → late.payments = Function.update w.payments earned.hash
      (some { row with amount := earned.amount, points := earned.points, status := .credited }) → ok late answer) :
    (finalizeCredit addr earned).wp (Program.steady (serving node now)) ok exit
      (w.setPayment earned.hash (some row)) := by
  simp only [finalizeCredit, Handler.wp_bind, Handler.wp_perform]
  refine Program.step_steady.mpr ?_
  obtain ⟨resp, answers⟩ := credit_balance
    ((w.setPayment earned.hash (some row)).accounts addr) ⟨earned.points, "tx:" ++ earned.hash, "topup"⟩
  simp only [serving, serve, Fault.apply, answers, creditReply, Handler.wp_bind, Handler.wp_perform, Handler.wp_pure]
  refine Program.step_steady.mpr (done _ _ ?_ ?_)
  · simp [serving, serve, Fault.apply, World.updateStatus, World.setAccount, World.setPayment]
  · simp [serving, serve, Fault.apply, World.updateStatus, World.setAccount, World.setPayment]

structure Submission where
  session : Option String
  req : TopupReq
  now : Nat

namespace Submission
variable (st : AppState) (node : Node) (w : World) (s : Submission)

def claim : Option (String × TokenSpec × String) :=
  match s.session, resolveSpec st s.req with
  | some addr, .ok spec => (rowKey st spec s.req.txHash).map fun hash => (addr, spec, hash)
  | _, _ => none

def finalizes : Bool :=
  match s.session, resolveSpec st s.req with
  | some addr, .ok spec => ((earn st addr spec s.req.txHash).run.run (serving node s.now) w).1.isOk
  | _, _ => false

def submit : World := ((topup st s.session s.req).run.run (serving node s.now) w).2

variable {st node w s}

theorem finalizes_iff {addr : String} {spec : TokenSpec} {hash : String} (claims : s.claim st = some (addr, spec, hash)) :
    s.finalizes st node w = true ↔
      w.payments hash = none ∧ ∃ amount points, verdict st node s.now addr spec hash w = .earned amount points := by
  rw [claim] at claims
  split at claims
  next addr' spec' session resolved =>
    obtain ⟨hash', named, same⟩ := Option.map_eq_some_iff.mp claims
    obtain ⟨rfl, rfl, rfl⟩ : addr' = addr ∧ spec' = spec ∧ hash' = hash := by simpa using same
    simp only [finalizes, session, resolved]
    cases free : w.payments hash' with
    | none =>
      have settled := Handler.wp_steady.mp (earn_wp node s.now addr' named free)
      cases ended : ((earn st addr' spec' s.req.txHash).run.run (serving node s.now) w).1 with
      | ok earned =>
        rw [ended] at settled
        exact iff_of_true rfl ⟨rfl, _, _, settled.1⟩
      | error answer =>
        rw [ended] at settled
        refine iff_of_false (by simp [Except.isOk, Except.toBool]) ?_
        rintro ⟨_, amount, points, earned⟩
        exact settled.1 amount points earned
    | some row =>
      have idle : ∀ hash, rowKey st spec' s.req.txHash = some hash → w.payments hash ≠ none := by
        intro hash found
        cases named.symm.trans found
        simp [free]
      have settled := Handler.wp_steady.mp (earn_idle node s.now addr' idle)
      cases ended : ((earn st addr' spec' s.req.txHash).run.run (serving node s.now) w).1 with
      | ok earned =>
        rw [ended] at settled
        exact settled.elim
      | error answer =>
        refine iff_of_false (by simp [Except.isOk, Except.toBool]) ?_
        rintro ⟨missing, _⟩
        cases missing
  · cases claims

theorem submit_idle (idle : ∀ addr spec hash, s.claim st = some (addr, spec, hash) → w.payments hash ≠ none) :
    s.submit st node w = w := by
  have ends : (topup st s.session s.req).wp (Program.steady (serving node s.now)) (fun late _ => late = w)
      (fun late _ => late = w) w := by
    unfold topup
    cases session : s.session with
    | none => exact (Handler.wp_throw _).mpr rfl
    | some addr =>
      dsimp only
      cases resolved : resolveSpec st s.req with
      | error message => exact (Handler.wp_throw _).mpr rfl
      | ok spec =>
        simp only [Handler.wp_bind]
        refine Handler.wp_mono (earn_idle node s.now addr fun hash named => ?_) (fun _ _ => False.elim) fun _ _ => id
        exact idle addr spec hash (by simp [claim, session, resolved, named])
  have settled := Handler.wp_steady.mp ends
  split at settled
  · exact settled
  · exact settled

/-- A submission of a free row leaves what its verdict says, and no other row
or user changes. -/
theorem submit_free {addr : String} {spec : TokenSpec} {hash : String} (claims : s.claim st = some (addr, spec, hash))
    (free : w.payments hash = none) : (s.submit st node w).users = w.users ∧ (s.submit st node w).payments =
      Function.update w.payments hash ((verdict st node s.now addr spec hash w).final (inserted addr spec s.now)) := by
  rw [claim] at claims
  split at claims
  next addr' spec' session resolved =>
    obtain ⟨hash', named, same⟩ := Option.map_eq_some_iff.mp claims
    obtain ⟨rfl, rfl, rfl⟩ : addr' = addr ∧ spec' = spec ∧ hash' = hash := by simpa using same
    have ends : (topup st s.session s.req).wp (Program.steady (serving node s.now))
        (fun late _ => late.users = w.users ∧ late.payments = Function.update w.payments hash'
          ((verdict st node s.now addr' spec' hash' w).final (inserted addr' spec' s.now)))
        (fun late _ => late.users = w.users ∧ late.payments = Function.update w.payments hash'
          ((verdict st node s.now addr' spec' hash' w).final (inserted addr' spec' s.now))) w := by
      simp only [topup, session, resolved, Handler.wp_bind]
      apply Handler.wp_mono (earn_wp node s.now addr' named free)
      · rintro late earned ⟨earns, rfl, rfl⟩
        rw [earns]
        exact finalizeCredit_wp fun late _ users payments => ⟨users, payments⟩
      · rintro late answer ⟨short, rfl⟩
        cases comes : verdict st node s.now addr' spec' hash' w with
        | earned amount points => exact (short amount points comes).elim
        | _ => exact ⟨rfl, rfl⟩
    have settled := Handler.wp_steady.mp ends
    split at settled
    · exact settled
    · exact settled
  · cases claims

end Submission

end LetsEmbed.Payments
