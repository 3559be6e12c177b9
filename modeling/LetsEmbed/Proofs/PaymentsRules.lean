import LetsEmbed.Payments

/-! Rules for the steps of a top-up, over any protocol. Each says which command
the step issues and, by what comes back, whether it goes on, releases the row or
rejects it. -/

namespace LetsEmbed.Payments
open Account Config Rates Solana Session Systems Text

variable {S α : Type} {P : Protocol Command Command.Reply S} {exit : S → Answer → Prop} {s : S} {st : AppState}
  {addr hash : String} {spec : TokenSpec}

def rowKey (st : AppState) (spec : TokenSpec) (text : String) : Option String :=
  match spec.chain with
  | .ethereum => let hash := st.toLowercase (trim text); if validTxHash hash then some hash else none
  | .solana => let sig := trim text; if validSignature sig then some sig else none

/-- No text is an Ethereum hash and a Solana signature. -/
theorem validSignature_of_validTxHash {hash : String} (valid : validTxHash hash = true) :
    validSignature hash = false := by
  rw [validTxHash] at valid
  split at valid
  next digits hex => rw [validSignature, base58Decode_hex hex, Option.any_none]
  · cases valid

def Releases (P : Protocol Command Command.Reply S) (exit : S → Answer → Prop) (hash : String) (s : S) : Prop :=
  P.Step s (.deletePending hash) fun late _ => ∀ answer, exit late answer

def Rejects (P : Protocol Command Command.Reply S) (exit : S → Answer → Prop) (hash : String) (s : S) : Prop :=
  P.Step s (.rejectPayment hash) fun late _ => ∀ answer, exit late answer

theorem step_mono {command : Command} {next other : S → command.Reply → Prop} (holds : P.Step s command next)
    (implies : ∀ late reply, next late reply → other late reply) : P.Step s command other :=
  ⟨holds.1, fun reply answered => implies _ _ (holds.2 reply answered)⟩

theorem release_rule {ok : S → α → Prop} {answer : Answer} (releases : Releases P exit hash s) :
    (release hash answer : Handler α).wp P ok exit s := by
  simp only [release, Handler.wp_bind, Handler.wp_perform, Handler.wp_throw]
  exact step_mono releases fun _ _ ends => ends answer

theorem reject_rule {ok : S → α → Prop} {message : String} (rejects : Rejects P exit hash s) :
    (reject hash message : Handler α).wp P ok exit s := by
  simp only [reject, Handler.wp_bind, Handler.wp_perform, Handler.wp_throw]
  exact step_mono rejects fun _ _ ends => ends _

theorem require_rule {ok : S → Unit → Prop} {condition : Bool} {otherwise : Handler Unit}
    (holds : condition = true → ok s ()) (fails : condition = false → otherwise.wp P ok exit s) :
    (require condition otherwise).wp P ok exit s := by
  cases condition with
  | true => exact (Handler.wp_pure ()).mpr (holds rfl)
  | false => exact fails rfl

theorem rpc_rule {ok : S → Option Json → Prop} {url method : String} {params : List Json}
    (next : P.Step s (.fetch url (rpcBody method params)) fun late fetched => ok late (rpcResult fetched)) :
    (rpc url method params).wp P ok exit s := by
  simp only [rpc, Handler.wp_bind, Handler.wp_perform, Handler.wp_pure]
  exact next

theorem lock_rule {ok : S → Unit → Prop} (next : P.Step s .now fun asked now =>
      P.Step asked (.insertPayment hash addr spec.chain.asStr spec.symbol now) fun late reply =>
        (reply = .ok () → ok late ()) ∧ (reply ≠ .ok () → ∀ answer, exit late answer)) :
    (lock addr spec hash).wp P ok exit s := by
  simp only [lock, Handler.wp_bind, Handler.wp_perform]
  refine step_mono next fun asked now inserts => step_mono inserts fun late reply ends => ?_
  cases reply with
  | ok => exact (Handler.wp_pure ()).mpr (ends.1 rfl)
  | error failure =>
    have refused : ∀ answer, exit late answer := ends.2 (by simp)
    cases failure with
    | constraint => exact (Handler.wp_throw _).mpr (refused _)
    | other => exact (Handler.wp_throw _).mpr (refused _)

theorem lockHash_rule {ok : S → String → Prop} {text : String}
    (valid : validTxHash (st.toLowercase (trim text)) = true →
      (lock addr spec (st.toLowercase (trim text))).wp P (fun late _ => ok late (st.toLowercase (trim text))) exit s)
    (invalid : validTxHash (st.toLowercase (trim text)) = false → ∀ answer, exit s answer) :
    (lockHash st addr spec text).wp P ok exit s := by
  simp only [lockHash, Handler.wp_bind, Handler.wp_pure]
  exact require_rule valid fun bad => (Handler.wp_throw _).mpr (invalid bad _)

theorem fetchTx_rule {ok : S → RpcTx → Prop}
    (next : P.Step s (.fetch st.rpcUrl (rpcBody "eth_getTransactionByHash" [.str hash])) fun late fetched =>
      (∀ tx, (rpcResult fetched).bind decodeTx = some tx → ok late tx) ∧
        ((rpcResult fetched).bind decodeTx = none → Releases P exit hash late)) :
    (fetchTx st hash).wp P ok exit s := by
  simp only [fetchTx, Handler.wp_bind]
  refine rpc_rule (step_mono next fun late fetched ends => ?_)
  cases result : rpcResult fetched with
  | none => exact release_rule (ends.2 (by rw [result]; rfl))
  | some value =>
    rw [result, Option.bind_some] at ends
    dsimp only
    cases decoded : decodeTx value with
    | none =>
      split
      · exact release_rule (ends.2 decoded)
      · exact release_rule (ends.2 decoded)
    | some tx =>
      cases value with
      | null => cases decoded
      | _ => exact (Handler.wp_pure tx).mpr (ends.1 tx decoded)

theorem checkSender_rule {ok : S → Unit → Prop} {tx : RpcTx} (same : st.toLowercase tx.sender = addr → ok s ())
    (foreign : st.toLowercase tx.sender ≠ addr → Releases P exit hash s) :
    (checkSender st addr hash tx).wp P ok exit s := by
  apply require_rule
  · exact fun sender => same (of_decide_eq_true sender)
  · exact fun sender => release_rule (foreign (of_decide_eq_false sender))

theorem fetchReceipt_rule {ok : S → RpcReceipt → Prop}
    (next : P.Step s (.fetch st.rpcUrl (rpcBody "eth_getTransactionReceipt" [.str hash])) fun late fetched =>
      (∀ receipt, (rpcResult fetched).bind decodeReceipt = some receipt → ok late receipt) ∧
        ((rpcResult fetched).bind decodeReceipt = none → Releases P exit hash late)) :
    (fetchReceipt st hash).wp P ok exit s := by
  simp only [fetchReceipt, Handler.wp_bind]
  refine rpc_rule (step_mono next fun late fetched ends => ?_)
  cases result : rpcResult fetched with
  | none => exact release_rule (ends.2 (by rw [result]; rfl))
  | some value =>
    rw [result, Option.bind_some] at ends
    dsimp only
    cases decoded : decodeReceipt value with
    | none =>
      split
      · exact release_rule (ends.2 decoded)
      · exact release_rule (ends.2 decoded)
    | some receipt =>
      cases value with
      | null => cases decoded
      | _ => exact (Handler.wp_pure receipt).mpr (ends.1 receipt decoded)

theorem minedBlock_rule {ok : S → Nat → Prop} {receipt : RpcReceipt}
    (mined : ∀ block, receipt.status = some "0x1" → receipt.blockNumber.bind hexToU64 = some block → ok s block)
    (failed : ∀ status, receipt.status = some status → status ≠ "0x1" → Rejects P exit hash s)
    (pending : receipt.status = none ∨ receipt.status = some "0x1" ∧ receipt.blockNumber.bind hexToU64 = none →
      Releases P exit hash s) : (minedBlock hash receipt).wp P ok exit s := by
  rw [minedBlock]
  cases status : receipt.status with
  | none => exact release_rule (pending (.inl status))
  | some status' =>
    dsimp only
    split
    next reverted => exact reject_rule (failed status' status reverted)
    next success =>
      rw [Classical.not_not.mp success] at status
      cases number : receipt.blockNumber with
      | none => exact release_rule (pending (.inr ⟨status, by rw [number]; rfl⟩))
      | some number' =>
        dsimp only
        cases block : hexToU64 number' with
        | none => exact release_rule (pending (.inr ⟨status, by rw [number]; exact block⟩))
        | some block' => exact (Handler.wp_pure block').mpr (mined block' status (by rw [number]; exact block))

theorem confirm_rule {ok : S → Unit → Prop} {block : Nat}
    (next : P.Step s (.fetch st.rpcUrl (rpcBody "eth_blockNumber" [])) fun late fetched =>
      let head := (rpcResult fetched).bind fun value => value.asStr.bind hexToU64
      (isConfirmed head block = true → ok late ()) ∧ (isConfirmed head block = false → Releases P exit hash late)) :
    (confirm st hash block).wp P ok exit s := by
  simp only [confirm, Handler.wp_bind]
  refine rpc_rule (step_mono next fun late fetched ends => ?_)
  cases result : rpcResult fetched with
  | none => exact release_rule (ends.2 (by rw [result]; rfl))
  | some value =>
    rw [result] at ends
    exact require_rule ends.1 fun early => release_rule (ends.2 early)

def feedCall (feed : String) : Json :=
  rpcBody "eth_call" [.obj [("to", .str feed), ("data", .str latestRoundData)], .str "latest"]

def feedPrice (fetched : Fetched) (now : Nat) : Option Nat :=
  ((rpcResult fetched).bind Json.asStr).bind fun hex => (decodeLatestRoundData hex now).toOption

theorem price_rule {ok : S → Int → Prop} {amount : Nat} (next :
      let priced (found : Option Nat) (late : S) :=
        (minTopupPoints ≤ pointsFor amount spec.decimals found → ok late (pointsFor amount spec.decimals found)) ∧
          (¬ minTopupPoints ≤ pointsFor amount spec.decimals found → Rejects P exit hash late)
      match spec.feed with
      | none => priced none s
      | some feed => P.Step s .now fun asked now => P.Step asked (.fetch st.rpcUrl (feedCall feed)) fun late fetched =>
          (∀ value, feedPrice fetched now = some value → priced (some value) late) ∧
            (feedPrice fetched now = none → Releases P exit hash late)) :
    (price st spec hash amount).wp P ok exit s := by
  simp only [price, resolvePrice, Handler.wp_bind, Handler.wp_pure]
  have settled (late : S) (found : Option Nat)
      (priced : (minTopupPoints ≤ pointsFor amount spec.decimals found →
          ok late (pointsFor amount spec.decimals found)) ∧
        (¬ minTopupPoints ≤ pointsFor amount spec.decimals found → Rejects P exit hash late)) :
      (require (minTopupPoints ≤ pointsFor amount spec.decimals found)
        (reject hash "amount below minimum top-up")).wp P
        (fun late _ => ok late (pointsFor amount spec.decimals found)) exit late := by
    apply require_rule
    · exact fun reached => priced.1 (of_decide_eq_true reached)
    · exact fun below => reject_rule (priced.2 (of_decide_eq_false below))
  cases feed : spec.feed with
  | none =>
    rw [feed] at next
    exact (Handler.wp_pure none).mpr (settled s none next)
  | some feed' =>
    rw [feed] at next
    simp only [Handler.wp_bind, Handler.wp_perform, chainlinkPrice, ethCall, Handler.wp_pure]
    refine step_mono next fun asked now called => step_mono called fun late fetched ends => ?_
    cases found : feedPrice fetched now with
    | none =>
      have missing := ends.2 found
      rw [feedPrice] at found
      rw [found]
      exact release_rule missing
    | some value =>
      have priced := ends.1 value found
      rw [feedPrice] at found
      rw [found]
      exact (Handler.wp_pure (some value)).mpr (settled late (some value) priced)

def walletOf (addr : String) : Except Failure (Option (Option String)) → Option String
  | .ok (some (some linked)) => some linked
  | .ok _ => if isSolPrincipal addr then some addr else none
  | .error _ => none

theorem solanaWallet_rule {ok : S → String → Prop} (next : P.Step s (.selectSolana addr) fun late reply =>
      (∀ wallet, walletOf addr reply = some wallet → ok late wallet) ∧
        (walletOf addr reply = none → ∀ answer, exit late answer)) :
    (solanaWallet addr).wp P ok exit s := by
  simp only [solanaWallet, Handler.wp_bind, Handler.wp_perform]
  refine step_mono next fun late reply ends => ?_
  split
  next linked => exact (Handler.wp_pure linked).mpr (ends.1 linked rfl)
  · simp only [walletOf] at ends
    split
    next standalone => exact (Handler.wp_pure addr).mpr (ends.1 addr (if_pos standalone))
    next ethereum => exact (Handler.wp_throw _).mpr (ends.2 (if_neg ethereum) _)
  · simp only [walletOf] at ends
    split
    next standalone => exact (Handler.wp_pure addr).mpr (ends.1 addr (if_pos standalone))
    next ethereum => exact (Handler.wp_throw _).mpr (ends.2 (if_neg ethereum) _)
  · exact (Handler.wp_throw _).mpr (ends.2 rfl _)

/-- A transaction once the node has it final. -/
def finalTransaction (fetched : Fetched) : Option Json := (rpcResult fetched).filter (!·.isNull)

theorem topupSolana_rule {ok : S → SolOutcome → Prop} {wallet : String}
    (next : P.Step s (.fetch st.solRpcUrl (transactionBody hash)) fun late fetched =>
      (∀ value, finalTransaction fetched = some value →
        ok late (verifySolana value spec st.solDepositAddress wallet)) ∧
      (finalTransaction fetched = none → ok late .rpcError ∧ ok late .tooEarly)) :
    (topupSolana st.solRpcUrl spec st.solDepositAddress wallet hash).wp P ok exit s := by
  simp only [topupSolana, getTransaction, Handler.wp_bind, Handler.wp_perform, Handler.wp_pure]
  refine step_mono next fun late fetched ends => ?_
  cases result : rpcResult fetched with
  | none => exact (Handler.wp_pure _).mpr (ends.2 (by simp [finalTransaction, result])).1
  | some value =>
    dsimp only
    split
    next null => exact (Handler.wp_pure _).mpr (ends.2 (by simp [finalTransaction, result, null])).2
    next final => exact (Handler.wp_pure _).mpr (ends.1 value (by simp [finalTransaction, result, final]))

end LetsEmbed.Payments
