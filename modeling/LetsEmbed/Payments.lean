import LetsEmbed.Solana

/-! Crypto top-ups (`user_worker/src/payments.rs`): three handlers that lock the
transaction with a `payments` row, verify it on-chain, and credit the account
object. Failures of the transaction itself reject the row for good; transient
ones and those of the submitter delete it. -/

namespace LetsEmbed.Payments
open Account Config Rates Solana Session Systems Text

/-- What the worker is configured with, and library functions of which nothing
is assumed: `str::to_lowercase`, and strict ed25519 verification on bytes. -/
structure AppState where
  toLowercase : String → String
  verifyStrict : (publicKey signature : List Nat) → (message : String) → Bool
  rpcUrl : String
  depositAddress : String
  solRpcUrl : String
  solDepositAddress : String
  siweDomain : String

def hexToU128 (s : String) : Option Nat := (stripPrefix "0x" s).bind (fromStrRadix 128 16)
def hexToU64 (s : String) : Option Nat := (hexToU128 s).filter (· < 2 ^ 64)

def validTxHash (s : String) : Bool :=
  match stripPrefix "0x" s with
  | some digits => digits.toList.length == 64 && digits.toList.all isLowerHexDigit
  | none => false

structure RpcTx where
  sender : String
  recipient : Option String
  value : String
  deriving DecidableEq

structure RpcLog where
  address : String
  topics : List String
  data : String
  deriving DecidableEq

structure RpcReceipt where
  status : Option String
  blockNumber : Option String
  logs : List RpcLog
  deriving DecidableEq

def decodeTx (value : Json) : Option RpcTx := do
  match ← value.slots ["from", "to", "value"] 0 with
  | [sender, recipient, amount] =>
    pure ⟨← Json.decodeString sender, ← Json.decodeOptional recipient, ← Json.decodeString amount⟩
  | _ => none

def decodeLog (value : Json) : Option RpcLog := do
  match ← value.slots ["address", "topics", "data"] 0 with
  | [address, some topics, data] =>
    pure ⟨← Json.decodeString address, ← Json.decodeList Json.asStr topics, ← Json.decodeString data⟩
  | _ => none

/-- Only `logs` has a default. -/
def decodeReceipt (value : Json) : Option RpcReceipt := do
  match ← value.slots ["status", "blockNumber", "logs"] 1 with
  | [status, blockNumber, logs] =>
    let logs ← match logs with
      | none => some []
      | some logs => Json.decodeList decodeLog logs
    pure ⟨← Json.decodeOptional status, ← Json.decodeOptional blockNumber, logs⟩
  | _ => none

/-- keccak256 of `Transfer(address,address,uint256)`. -/
def transferTopic0 : String := "0xddf252ad1be2c89b69c2b068fc378daa952ba7f163c4a11628f55a4df523b3ef"

/-- The suffix of this many bytes; slicing inside a character panics. -/
def lastBytes (size : Nat) : List Char → Option (List Char)
  | [] => if size = 0 then some [] else none
  | c :: rest =>
    let all := ((c :: rest).map Char.utf8Size).sum
    if all = size then some (c :: rest) else if all < size then none else lastBytes size rest

def topicAddress (toLowercase : String → String) (topic : String) : Option String :=
  let h := toLowercase ((stripPrefix "0x" topic).getD topic)
  if 40 ≤ byteLength h then (lastBytes 40 h.toList).map String.ofList else some h

/-- The amount of one log when it is the transfer looked for. The outer option
is missing where the source panics. -/
def matchLog (toLowercase : String → String) (tokenAddr depositNo0x senderNo0x : String) (log : RpcLog) :
    Option (Option Nat) :=
  if toLowercase log.address ≠ tokenAddr then some none
  else
    match log.topics with
    | topic0 :: topic1 :: topic2 :: _ =>
      if toLowercase topic0 ≠ transferTopic0 then some none
      else
        match topicAddress toLowercase topic2 with
        | none => none
        | some recipient =>
          if recipient ≠ depositNo0x then some none
          else
            match topicAddress toLowercase topic1 with
            | none => none
            | some sender => if sender ≠ senderNo0x then some none else some (hexToU128 log.data)
    | _ => some none

def matchTransferLog (toLowercase : String → String) (tokenAddr depositNo0x senderNo0x : String) :
    List RpcLog → Option (Option Nat)
  | [] => some none
  | log :: rest =>
    match matchLog toLowercase tokenAddr depositNo0x senderNo0x log with
    | some none => matchTransferLog toLowercase tokenAddr depositNo0x senderNo0x rest
    | found => found

def verifyNativeTx (toLowercase : String → String) (tx : RpcTx) (depositAddress : String) : Except String Nat :=
  match tx.recipient with
  | none => .error "tx has no recipient"
  | some recipient =>
    if toLowercase recipient ≠ depositAddress then .error "tx recipient is not the deposit address"
    else
      match hexToU128 tx.value with
      | none => .error "bad tx value"
      | some value => .ok value

section Rows
variable {α : Type}

/-- Permanent failure: the row is rejected, the answer is 400. -/
def reject (hash message : String) : Handler α := do
  let _ ← Handler.perform (Command.rejectPayment hash)
  throw (apiErr 400 message)

def release (hash : String) (answer : Answer) : Handler α := do
  let _ ← Handler.perform (Command.deletePending hash)
  throw answer

def rpcUnavailable (hash : String) : Handler α := release hash (apiErr 502 "rpc unavailable, retry later")

def tooEarly (hash : String) : Handler α :=
  release hash (apiErr 425 "not enough confirmations yet, retry later")

end Rows

def require (condition : Bool) (otherwise : Handler Unit) : Handler Unit :=
  if condition then pure () else otherwise

def rpc (url method : String) (params : List Json) : Handler (Option Json) := do
  let fetched ← Handler.perform (Command.fetch url (rpcBody method params))
  pure (rpcResult fetched)

/-- The replay lock: the hash is the primary key of `payments`. -/
def lock (addr : String) (spec : TokenSpec) (hash : String) : Handler Unit := do
  let now ← Handler.perform Command.now
  match ← Handler.perform (Command.insertPayment hash addr spec.chain.asStr spec.symbol now) with
  | .ok () => pure ()
  | .error .constraint => throw (apiErr 409 "tx already submitted")
  | .error .other => throw (apiErr 500 "database error, retry later")

def resolvePrice (st : AppState) (spec : TokenSpec) (hash : String) : Handler (Option Nat) :=
  match spec.feed with
  | none => pure none
  | some feed => do
    let now ← Handler.perform Command.now
    match ← chainlinkPrice st.rpcUrl feed now with
    | some price => pure (some price)
    | none => rpcUnavailable hash

def price (st : AppState) (spec : TokenSpec) (hash : String) (amount : Nat) : Handler Int := do
  let price ← resolvePrice st spec hash
  let points := pointsFor amount spec.decimals price
  require (minTopupPoints ≤ points) (reject hash "amount below minimum top-up")
  pure points

structure Earned where
  hash : String
  amount : Nat
  points : Int
  deriving DecidableEq

/-- The user's linked Solana wallet, or the account's own key for a standalone
Solana account. -/
def solanaWallet (addr : String) : Handler String := do
  match ← Handler.perform (Command.selectSolana addr) with
  | .ok (some (some linked)) => pure linked
  | .ok (some none) | .ok none =>
    if isSolPrincipal addr then pure addr
    else throw (apiErr 400 "link a Solana wallet before topping up with SOL/SPL")
  | .error _ => throw (apiErr 500 "database error, retry later")

def earnSolana (st : AppState) (addr : String) (spec : TokenSpec) (signatureIn : String) : Handler Earned := do
  let sig := trim signatureIn
  require (validSignature sig) (throw (apiErr 400 "invalid transaction signature"))
  let linked ← solanaWallet addr
  lock addr spec sig
  let amount ← match ← topupSolana st.solRpcUrl spec st.solDepositAddress linked sig with
    | .credited amount => pure amount
    | .reject message => reject sig message
    | .wrongSender => release sig (apiErr 403 "tx sender is not your linked Solana wallet")
    | .tooEarly => tooEarly sig
    | .rpcError => rpcUnavailable sig
  let points ← price st spec sig amount
  pure ⟨sig, amount, points⟩

def lockHash (st : AppState) (addr : String) (spec : TokenSpec) (txHashIn : String) : Handler String := do
  let hash := st.toLowercase (trim txHashIn)
  require (validTxHash hash) (throw (apiErr 400 "invalid tx hash"))
  lock addr spec hash
  pure hash

def fetchTx (st : AppState) (hash : String) : Handler RpcTx := do
  match ← rpc st.rpcUrl "eth_getTransactionByHash" [.str hash] with
  | none => rpcUnavailable hash
  | some value =>
    if value.isNull then release hash (apiErr 400 "tx not found")
    else
      match decodeTx value with
      | some tx => pure tx
      | none => rpcUnavailable hash

def checkSender (st : AppState) (addr hash : String) (tx : RpcTx) : Handler Unit :=
  require (st.toLowercase tx.sender = addr)
    (release hash (apiErr 403 "tx sender does not match logged-in address"))

/-- A null receipt is not mined yet. -/
def fetchReceipt (st : AppState) (hash : String) : Handler RpcReceipt := do
  match ← rpc st.rpcUrl "eth_getTransactionReceipt" [.str hash] with
  | none => rpcUnavailable hash
  | some value =>
    if value.isNull then tooEarly hash
    else
      match decodeReceipt value with
      | some receipt => pure receipt
      | none => rpcUnavailable hash

def minedBlock (hash : String) (receipt : RpcReceipt) : Handler Nat :=
  match receipt.status, receipt.blockNumber with
  | some status, block =>
    if status ≠ "0x1" then reject hash "tx failed on-chain"
    else
      match block with
      | some number =>
        match hexToU64 number with
        | some block => pure block
        | none => rpcUnavailable hash
      | none => tooEarly hash
  | none, _ => tooEarly hash

/-- `d + 1` is `u64` arithmetic and wraps at the top. -/
def isConfirmed (head : Option Nat) (block : Nat) : Bool :=
  head.any fun head => decide (block ≤ head) && decide ((head - block + 1) % 2 ^ 64 ≥ minConfirmations)

def confirm (st : AppState) (hash : String) (block : Nat) : Handler Unit := do
  match ← rpc st.rpcUrl "eth_blockNumber" [] with
  | none => rpcUnavailable hash
  | some value => require (isConfirmed (value.asStr.bind hexToU64) block) (tooEarly hash)

/-- A native transfer: the recipient is checked before the sender. -/
def earnNative (st : AppState) (addr : String) (spec : TokenSpec) (txHashIn : String) : Handler Earned := do
  let hash ← lockHash st addr spec txHashIn
  let tx ← fetchTx st hash
  let amount ← match verifyNativeTx st.toLowercase tx st.depositAddress with
    | .ok amount => pure amount
    | .error message => reject hash message
  checkSender st addr hash tx
  let receipt ← fetchReceipt st hash
  let block ← minedBlock hash receipt
  confirm st hash block
  let points ← price st spec hash amount
  pure ⟨hash, amount, points⟩

/-- A token transfer: the sender is checked first, then the receipt's logs. -/
def earnErc20 (st : AppState) (addr : String) (spec : TokenSpec) (contract txHashIn : String) :
    Handler Earned := do
  let hash ← lockHash st addr spec txHashIn
  let tx ← fetchTx st hash
  checkSender st addr hash tx
  let receipt ← fetchReceipt st hash
  let block ← minedBlock hash receipt
  let depositNo0x := (stripPrefix "0x" st.depositAddress).getD st.depositAddress
  let senderNo0x := (stripPrefix "0x" addr).getD addr
  let amount ← match matchTransferLog st.toLowercase contract depositNo0x senderNo0x receipt.logs with
    | some (some amount) => pure amount
    | some none => reject hash "no matching token transfer"
    | none => throw .panic
  confirm st hash block
  let points ← price st spec hash amount
  pure ⟨hash, amount, points⟩

def finalizeCredit (addr : String) (earned : Earned) : Handler Answer := do
  match ← Handler.perform (Command.doCredit addr ⟨earned.points, "tx:" ++ earned.hash, "topup"⟩) with
  | .error _ => release earned.hash (apiErr 500 "credit failed, retry later")
  | .ok resp => do
    let _ ← Handler.perform (Command.creditPayment earned.hash earned.amount earned.points)
    pure (.response 200 (.topup earned.points resp.balance))

structure TopupReq where
  chain : String
  token : String
  txHash : String

def resolveSpec (st : AppState) (req : TopupReq) : Except String TokenSpec :=
  match Chain.parse req.chain with
  | none => .error "unsupported chain"
  | some chain =>
    match Config.token chain (st.toLowercase (trim req.token)) with
    | none => .error "unsupported token"
    | some spec => .ok spec

/-- The verification of a request, up to the call of `finalize_credit` that
ends each of the three handlers. -/
def earn (st : AppState) (addr : String) (spec : TokenSpec) (txHash : String) : Handler Earned :=
  match spec.chain, spec.contract with
  | .ethereum, none => earnNative st addr spec txHash
  | .ethereum, some contract => earnErc20 st addr spec contract txHash
  | .solana, _ => earnSolana st addr spec txHash

/-- `session` is the address of the verified session, if there is one. -/
def topup (st : AppState) (session : Option String) (req : TopupReq) : Handler Answer := do
  match session with
  | none => throw (apiErr 401 "login required")
  | some addr =>
    match resolveSpec st req with
    | .error message => throw (apiErr 400 message)
    | .ok spec => do
      let earned ← earn st addr spec req.txHash
      finalizeCredit addr earned

end LetsEmbed.Payments
