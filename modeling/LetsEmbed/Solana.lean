import LetsEmbed.Rates
import LetsEmbed.Session

/-! Verification of Solana top-ups (`user_worker/src/solana.rs`). It has no side
effects; the payment row is handled by its caller. -/

namespace LetsEmbed.Solana
open Config Rates Session Text

inductive SolOutcome where
  | credited (amount : Nat)
  | reject (message : String)
  | wrongSender
  | tooEarly
  | rpcError
  deriving DecidableEq

def validSignature (sig : String) : Bool := (base58Decode sig).any (·.length == 64)

/-- An account key is an object with a `pubkey`, or a plain string. -/
def pubkeyAt (keys : List Json) (i : Nat) : Option String :=
  match keys[i]? with
  | some (.str s) => some s
  | some other => (other.get "pubkey").bind Json.asStr
  | none => none

/-- `entry.uiTokenAmount.amount`, a decimal string of base units. -/
def tokenAmount (entry : Json) : Option Nat :=
  (((entry.get "uiTokenAmount").bind (·.get "amount")).bind Json.asStr).bind (fromStrRadix 128 10)

def verifyNative (metadata : Json) (keys : List Json) (depositAddress : String) : SolOutcome :=
  match (List.range keys.length).find? fun i => pubkeyAt keys i = some depositAddress with
  | none => .reject "deposit address not in transaction"
  | some i =>
    let pre := ((metadata.index "preBalances").getAt i).bind Json.asU64
    let post := ((metadata.index "postBalances").getAt i).bind Json.asU64
    match pre, post with
    | some pre, some post => if post ≤ pre then .reject "no SOL received" else .credited (post - pre)
    | _, _ => .rpcError

def verifySpl (metadata : Json) (mint depositAddress : String) : SolOutcome :=
  let postBalances := (metadata.index "postTokenBalances").asArray.getD []
  let preBalances := (metadata.index "preTokenBalances").asArray.getD []
  let received := postBalances.find? fun e =>
    (e.get "mint").bind Json.asStr = some mint ∧ (e.get "owner").bind Json.asStr = some depositAddress
  match received with
  | none => .reject "no token received"
  | some postEntry =>
    match tokenAmount postEntry with
    | none => .rpcError
    | some postAmount =>
      let acctIndex := (postEntry.get "accountIndex").bind Json.asU64
      let before := preBalances.find? fun e =>
        acctIndex.isSome ∧ (e.get "accountIndex").bind Json.asU64 = acctIndex
      let preAmount := (before.bind tokenAmount).getD 0
      if postAmount ≤ preAmount then .reject "no token received" else .credited (postAmount - preAmount)

def verifySolana (result : Json) (spec : TokenSpec) (depositAddress linkedAddress : String) : SolOutcome :=
  let metadata := result.index "meta"
  if ((metadata.get "err").map Json.isNull).getD true = false then .reject "tx failed on-chain"
  else
    match (((result.index "transaction").index "message").index "accountKeys").asArray with
    | none => .rpcError
    | some keys =>
      match pubkeyAt keys 0 with
      | none => .rpcError
      | some sender =>
        if sender ≠ linkedAddress then .wrongSender
        else
          match spec.contract with
          | none => verifyNative metadata keys depositAddress
          | some mint => verifySpl metadata mint depositAddress

def transactionBody (signature : String) : Json :=
  rpcBody "getTransaction" [.str signature, .obj [("encoding", .str "jsonParsed"),
    ("commitment", .str "finalized"), ("maxSupportedTransactionVersion", .unsigned 0)]]

def getTransaction (url signature : String) : Handler (Option Json) := do
  let fetched ← Systems.Handler.perform (Command.fetch url (transactionBody signature))
  pure (rpcResult fetched)

/-- Fetch and verify; a null result is not found or not final yet. -/
def topupSolana (solRpcUrl : String) (spec : TokenSpec) (depositAddress linkedAddress signature : String) :
    Handler SolOutcome := do
  match ← getTransaction solRpcUrl signature with
  | none => pure .rpcError
  | some result =>
    if result.isNull then pure .tooEarly else pure (verifySolana result spec depositAddress linkedAddress)

end LetsEmbed.Solana
