import LetsEmbed.Proofs.PaymentsEarned
import LetsEmbed.Proofs.PaymentsVerdict

/-! Which submissions spend a deposit's row without crediting it. Failures of
the submitter are meant to release the row, but the native handler rejects
foreign transactions before it looks at the sender, and a sender may name an
asset the transaction does not pay in. -/

namespace LetsEmbed.Payments
open Account Config Rates Solana Session Systems Text

section Burns
variable (st : AppState) (node : Node) (now : Nat) (addr : String) (spec : TokenSpec) (hash : String)

def dust (amount : Nat) : Bool :=
  (node.price st now spec).any fun price => decide (pointsFor amount spec.decimals price < minTopupPoints)

/-- The transaction does not pay in the asset named. As ether everybody may say
so; as a token, only the sender. -/
def burns (w : World) : Bool :=
  match spec.chain, spec.contract with
  | .ethereum, none => (node.tx st hash).any fun tx =>
      match verifyNativeTx st.toLowercase tx st.depositAddress with
      | .error _ => true
      | .ok amount => decide (st.toLowercase tx.sender = addr) && dust st node now spec amount
  | .ethereum, some contract => (node.tx st hash).any fun tx => decide (st.toLowercase tx.sender = addr) &&
      (node.receipt st hash).any fun receipt =>
        match transferred st addr contract receipt with
        | some (some amount) => dust st node now spec amount
        | _ => true
  | .solana, _ => (payer w addr).any fun wallet => (node.transaction st hash).any fun value =>
      match verifySolana value spec st.solDepositAddress wallet with
      | .credited amount => dust st node now spec amount
      | .reject _ => true
      | _ => false

end Burns

def Verdict.doomed : Verdict → Bool
  | .burnt | .stuck => true
  | .earned .. | .retry => false

def Final (node : Node) (st : AppState) (hash : String) : Prop :=
  ∃ tx receipt block, node.tx st hash = some tx ∧ node.receipt st hash = some receipt ∧
    (∀ next, mined receipt next = next block) ∧ isConfirmed (node.head st) block = true

section Verdicts
variable {st : AppState} {node : Node} {now : Nat} {addr : String} {spec : TokenSpec} {hash : String} {w : World}

theorem worth_doomed {amount : Nat} : (worth st node now spec amount).doomed = dust st node now spec amount := by
  unfold worth dust
  cases node.price st now spec with
  | none => rfl
  | some price =>
    simp only [Option.any_some]
    split
    next enough => exact (decide_eq_false (by omega)).symm
    next below => exact (decide_eq_true (by omega)).symm

theorem mined_earned {receipt : RpcReceipt} {next : Nat → Verdict} {amount : Nat} {points : Int}
    (earned : mined receipt next = .earned amount points) :
    ∃ block, (∀ other, mined receipt other = other block) ∧ next block = .earned amount points := by
  unfold mined at earned ⊢
  cases status : receipt.status with
  | none => simp [status] at earned
  | some status' =>
    simp only [status] at earned ⊢
    split at earned
    · cases earned
    next success =>
      cases number : receipt.blockNumber.bind hexToU64 with
      | none => simp [number] at earned
      | some block =>
        simp only [number] at earned
        exact ⟨block, fun other => by simp [success], earned⟩

theorem final_of_native {amount : Nat} {points : Int}
    (earned : nativeVerdict st node now addr spec hash = .earned amount points) : Final node st hash := by
  unfold nativeVerdict at earned
  split at earned
  · cases earned
  next tx found =>
    split at earned
    · cases earned
    · split at earned
      · split at earned
        · cases earned
        next receipt received =>
          obtain ⟨block, settled, comes⟩ := mined_earned earned
          split at comes
          next deep => exact ⟨tx, receipt, block, found, received, settled, deep⟩
          · cases comes
      · cases earned

theorem final_of_erc20 {contract : String} {amount : Nat} {points : Int}
    (earned : erc20Verdict st node now addr spec hash contract = .earned amount points) : Final node st hash := by
  unfold erc20Verdict at earned
  split at earned
  · cases earned
  next tx found =>
    split at earned
    · split at earned
      · cases earned
      next receipt received =>
        obtain ⟨block, settled, comes⟩ := mined_earned earned
        split at comes
        · cases comes
        · cases comes
        · split at comes
          next deep => exact ⟨tx, receipt, block, found, received, settled, deep⟩
          · cases comes
    · cases earned

theorem final_of_earned (ethereum : spec.chain = .ethereum) {amount : Nat} {points : Int}
    (earned : verdict st node now addr spec hash w = .earned amount points) : Final node st hash := by
  unfold verdict at earned
  split at earned
  · exact final_of_native earned
  · exact final_of_erc20 earned
  next solana => cases ethereum.symm.trans solana

/-- Over a final transaction, exactly the burning submissions doom the row. -/
theorem verdict_doomed (final : spec.chain = .ethereum → Final node st hash) :
    (verdict st node now addr spec hash w).doomed = burns st node now addr spec hash w := by
  unfold verdict burns
  cases chain : spec.chain with
  | solana =>
    dsimp only
    cases payer w addr with
    | none => rfl
    | some wallet =>
      simp only [solanaVerdict, Option.any_some]
      cases node.transaction st hash with
      | none => rfl
      | some value =>
        simp only [Option.any_some]
        cases verifySolana value spec st.solDepositAddress wallet with
        | credited amount => exact worth_doomed
        | _ => rfl
  | ethereum =>
    obtain ⟨tx, receipt, block, found, received, settled, deep⟩ := final chain
    cases spec.contract with
    | none =>
      simp only [nativeVerdict, found, received, settled, deep, Option.any_some]
      cases verifyNativeTx st.toLowercase tx st.depositAddress with
      | error message => rfl
      | ok amount =>
        dsimp only
        split
        next sender => simp [sender, worth_doomed]
        next foreign => simp [foreign, Verdict.doomed]
    | some contract =>
      simp only [erc20Verdict, found, received, settled, deep, Option.any_some]
      split
      next sender =>
        rw [decide_eq_true sender, Bool.true_and]
        rcases transferred st addr contract receipt with _ | _ | amount
        · rfl
        · rfl
        · exact worth_doomed
      next foreign => simp [foreign, Verdict.doomed]

theorem verdict_users {late : World} (users : late.users = w.users) :
    verdict st node now addr spec hash late = verdict st node now addr spec hash w := by
  simp [verdict, payer, World.user, users]

theorem burns_users {late : World} (users : late.users = w.users) :
    burns st node now addr spec hash late = burns st node now addr spec hash w := by
  simp [burns, payer, World.user, users]

end Verdicts

/-- No text is an Ethereum hash and a Solana signature: base58 has no zero. -/
theorem rowKey_chain {st : AppState} {spec other : TokenSpec} {text text' hash : String}
    (named : rowKey st spec text = some hash) (named' : rowKey st other text' = some hash) :
    spec.chain = other.chain := by
  have hex {spec : TokenSpec} {text : String} (named : rowKey st spec text = some hash)
      (ethereum : spec.chain = .ethereum) : validSignature hash = false := by
    simp only [rowKey, ethereum, Option.ite_none_right_eq_some, Option.some.injEq] at named
    rw [← named.2]
    exact validSignature_of_validTxHash named.1
  have base58 {spec : TokenSpec} {text : String} (named : rowKey st spec text = some hash)
      (solana : spec.chain = .solana) : validSignature hash = true := by
    simp only [rowKey, solana, Option.ite_none_right_eq_some, Option.some.injEq] at named
    rw [← named.2]
    exact named.1
  cases chain : spec.chain with
  | ethereum =>
    cases chain' : other.chain with
    | ethereum => rfl
    | solana => cases (hex named chain).symm.trans (base58 named' chain')
  | solana =>
    cases chain' : other.chain with
    | solana => rfl
    | ethereum => cases (hex named' chain').symm.trans (base58 named chain)

namespace Submission
variable (st : AppState) (node : Node) (w : World) (hash : String)

def burns (s : Submission) : Bool :=
  match s.claim st with
  | some (addr, spec, named) => decide (named = hash) && Payments.burns st node s.now addr spec hash w
  | none => false

def submits (earlier : List Submission) : World := earlier.foldl (fun w s => s.submit st node w) w

def credited : Bool := (w.payments hash).any fun row => decide (row.status = .credited)

variable {st node w hash}

theorem rowKey_of_claim {s : Submission} {addr : String} {spec : TokenSpec} (claims : s.claim st = some (addr, spec, hash)) :
    rowKey st spec s.req.txHash = some hash := by
  unfold claim at claims
  split at claims
  · obtain ⟨hash', named, same⟩ := Option.map_eq_some_iff.mp claims
    cases same
    exact named
  · cases claims

/-- A row once there stays as it is, and users stay as they are. -/
theorem submit_taken {row : PaymentRow} (taken : w.payments hash = some row) (s : Submission) :
    (s.submit st node w).payments hash = some row ∧ (s.submit st node w).users = w.users := by
  by_cases idle : ∀ addr spec named, s.claim st = some (addr, spec, named) → w.payments named ≠ none
  · rw [submit_idle idle]
    exact ⟨taken, rfl⟩
  · simp only [Classical.not_forall, not_not] at idle
    obtain ⟨addr, spec, named, claims, free⟩ := idle
    obtain ⟨users, payments⟩ : (s.submit st node w).users = w.users ∧ _ := submit_free claims free
    have different : hash ≠ named := by
      rintro rfl
      cases taken.symm.trans free
    rw [payments, Function.update_of_ne different]
    exact ⟨taken, users⟩

theorem submit_step (s : Submission) (free : w.payments hash = none)
    (final : ∀ addr spec, s.claim st = some (addr, spec, hash) → spec.chain = .ethereum → Final node st hash) :
    (s.submit st node w).users = w.users ∧ (s.burns st node w hash = true ∧
        (∃ row, (s.submit st node w).payments hash = some row) ∧ credited (s.submit st node w) hash = false ∨
      s.burns st node w hash = false ∧
        ((s.submit st node w).payments hash = none ∨ credited (s.submit st node w) hash = true)) := by
  by_cases idle : ∀ addr spec named, s.claim st = some (addr, spec, named) → w.payments named ≠ none
  · rw [submit_idle idle]
    refine ⟨rfl, .inr ⟨?_, .inl free⟩⟩
    unfold burns
    cases claims : s.claim st with
    | none => rfl
    | some target =>
      have different : target.2.2 ≠ hash := by
        rintro rfl
        exact idle _ _ _ claims free
      simp [different]
  simp only [Classical.not_forall, not_not] at idle
  obtain ⟨addr, spec, named, claims, unlocked⟩ := idle
  obtain ⟨users, payments⟩ : (s.submit st node w).users = w.users ∧ _ := submit_free claims unlocked
  refine ⟨users, ?_⟩
  by_cases same : named = hash
  · subst same
    have burning : s.burns st node w named = (verdict st node s.now addr spec named w).doomed := by
      rw [verdict_doomed (final addr spec claims)]
      simp [burns, claims]
    simp only [credited]
    rw [burning, payments, Function.update_self]
    cases verdict st node s.now addr spec named w with
    | earned amount points => exact .inr ⟨rfl, .inr rfl⟩
    | retry => exact .inr ⟨rfl, .inl rfl⟩
    | burnt => exact .inl ⟨rfl, ⟨_, rfl⟩, rfl⟩
    | stuck => exact .inl ⟨rfl, ⟨_, rfl⟩, rfl⟩
  · refine .inr ⟨by simp [burns, claims, same], .inl ?_⟩
    rw [payments, Function.update_of_ne (Ne.symm same)]
    exact free

theorem submits_taken {row : PaymentRow} (earlier : List Submission) (taken : w.payments hash = some row) :
    (submits st node w earlier).payments hash = some row := by
  induction earlier generalizing w with
  | nil => exact taken
  | cons s rest ih => exact ih (submit_taken taken s).1

theorem submits_free (earlier : List Submission) (free : w.payments hash = none)
    (final : ∀ (s : Submission) addr spec, s.claim st = some (addr, spec, hash) → spec.chain = .ethereum →
      Final node st hash)
    (uncredited : credited (submits st node w earlier) hash = false) :
    ((submits st node w earlier).payments hash = none ↔ ∀ s ∈ earlier, s.burns st node w hash = false) ∧
      ((submits st node w earlier).payments hash = none → (submits st node w earlier).users = w.users) := by
  induction earlier generalizing w with
  | nil => exact ⟨iff_of_true free (by simp), fun _ => rfl⟩
  | cons s rest ih =>
    change credited (submits st node (s.submit st node w) rest) hash = false at uncredited
    change ((submits st node (s.submit st node w) rest).payments hash = none ↔ _) ∧
      ((submits st node (s.submit st node w) rest).payments hash = none →
        (submits st node (s.submit st node w) rest).users = w.users)
    obtain ⟨users, ⟨burning, ⟨row, taken⟩, _⟩ | ⟨harmless, open' | paid⟩⟩ := submit_step s free (final s)
    · have kept : (submits st node (s.submit st node w) rest).payments hash = some row := submits_taken rest taken
      rw [kept]
      refine ⟨iff_of_false (by simp) fun none => ?_, fun missing => ?_⟩
      · rw [none s List.mem_cons_self] at burning
        cases burning
      · cases missing
    · obtain ⟨same, stays⟩ := ih open' uncredited
      have burns_same (s' : Submission) :
          s'.burns st node (s.submit st node w) hash = s'.burns st node w hash := by
        simp only [burns, burns_users users]
      simp only [burns_same] at same
      exact ⟨by simp [same, harmless], fun none => (stays none).trans users⟩
    · obtain ⟨row, taken, status⟩ : ∃ row, (s.submit st node w).payments hash = some row ∧ row.status = .credited := by
        simpa [credited, Option.any_eq_true] using paid
      have kept : (submits st node (s.submit st node w) rest).payments hash = some row := submits_taken rest taken
      simp [credited, kept, status] at uncredited

/-- A genuine deposit survives earlier submissions that did not credit it if
and only if none of them burns its row. -/
theorem deposit_survives_iff (st : AppState) (node : Node) (w : World) (deposit : Submission) {addr : String}
    {spec : TokenSpec} {hash : String} (claims : deposit.claim st = some (addr, spec, hash))
    (genuine : deposit.finalizes st node w = true) (earlier : List Submission)
    (uncredited : credited (submits st node w earlier) hash = false) :
    deposit.finalizes st node (submits st node w earlier) = true ↔
      ∀ s ∈ earlier, s.burns st node w hash = false := by
  obtain ⟨free, amount, points, earned⟩ := (finalizes_iff claims).mp genuine
  have final (s : Submission) (other : String) (spec' : TokenSpec) (claims' : s.claim st = some (other, spec', hash))
      (ethereum : spec'.chain = .ethereum) : Final node st hash := by
    have same := rowKey_chain (rowKey_of_claim claims) (rowKey_of_claim claims')
    exact final_of_earned (same.trans ethereum) earned
  obtain ⟨unburnt, stays⟩ := submits_free earlier free final uncredited
  rw [finalizes_iff claims, ← unburnt]
  constructor
  · exact fun finalizes => finalizes.1
  · intro none
    refine ⟨none, amount, points, ?_⟩
    rw [verdict_users (stays none), earned]

end Submission

section Example

def usdc : String := "0xa0b86991c6218b36c1d19d4a2e9eb0ce3606eb48"

def topic (digit : Char) : String := "0x" ++ String.ofList (List.replicate 24 '0' ++ List.replicate 40 digit)

/-- A node that knows one deposit of a dollar in USDC, 255 blocks ago. -/
def usdcDeposit : Node := fun _ body =>
  match (body.get "method").bind Json.asStr with
  | some "eth_getTransactionByHash" => .answered 200 (some (.obj [("result", .obj [("from", .str (account 'a')),
      ("to", .str usdc), ("value", .str "0x0")])]))
  | some "eth_getTransactionReceipt" => .answered 200 (some (.obj [("result", .obj [("status", .str "0x1"),
      ("blockNumber", .str "0x1"), ("logs", .arr [.obj [("address", .str usdc),
        ("data", .str ("0x" ++ String.ofList (List.replicate 59 '0') ++ "f4240")),
        ("topics", .arr [.str transferTopic0, .str (topic 'a'), .str (topic 'd')])]])])]))
  | some "eth_blockNumber" => .answered 200 (some (.obj [("result", .str "0x100")]))
  | _ => .failed

def submission (addr token : String) : Submission :=
  ⟨some addr, ⟨"ethereum", token, "0x" ++ String.ofList (List.replicate 64 'f')⟩, 0⟩

theorem submission_finalizes :
    (submission (account 'a') "usdc").finalizes sampleState usdcDeposit ⟨fun _ => none, [], fun _ => false, fun _ => {}⟩ = true := by
  decide +kernel

/-- Somebody else submits the deposit as ether, and the depositor is refused. -/
theorem deposit_burnt :
    let w : World := ⟨fun _ => none, [], fun _ => false, fun _ => {}⟩
    let deposit := submission (account 'a') "usdc"
    let foreign := submission (account 'b') "eth"
    deposit.finalizes sampleState usdcDeposit w = true ∧
      Submission.credited (Submission.submits sampleState usdcDeposit w [foreign]) foreign.req.txHash = false ∧
      deposit.finalizes sampleState usdcDeposit (Submission.submits sampleState usdcDeposit w [foreign]) = false := by
  refine ⟨submission_finalizes, ?_⟩
  decide +kernel

theorem deposit_survives_iff_foreign :
    let w : World := ⟨fun _ => none, [], fun _ => false, fun _ => {}⟩
    let deposit := submission (account 'a') "usdc"
    let foreign := submission (account 'b') "usdc"
    deposit.finalizes sampleState usdcDeposit (Submission.submits sampleState usdcDeposit w [foreign]) = true := by
  intro w deposit foreign
  have claims : deposit.claim sampleState =
      some (account 'a', ⟨.ethereum, "usdc", 6, some usdc, none⟩, deposit.req.txHash) := by
    decide +kernel
  have refused : Submission.credited (Submission.submits sampleState usdcDeposit w [foreign]) deposit.req.txHash = false ∧
      ∀ s ∈ [foreign], s.burns sampleState usdcDeposit w deposit.req.txHash = false := by
    decide +kernel
  obtain ⟨uncredited, unburnt⟩ := refused
  exact (Submission.deposit_survives_iff sampleState usdcDeposit w deposit claims submission_finalizes [foreign]
    uncredited).mpr unburnt

end Example

end LetsEmbed.Payments
