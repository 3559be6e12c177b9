import LetsEmbed.Config
import LetsEmbed.Rust
import LetsEmbed.Services

/-! Prices and the conversion of on-chain amounts to points
(`user_worker/src/rates.rs`). -/

namespace LetsEmbed.Rates
open Config Rust Text

/-- Points for a raw amount, at a price with eight decimals or at one dollar.
Saturating wherever a product leaves `u128`. -/
def pointsFor (amountRaw decimals : Nat) (price8dec : Option Nat) : Int :=
  let scaled := amountRaw * price8dec.getD 100_000_000
  if scaled < 2 ^ 128 then
    let num := scaled / 10 ^ decimals * pointsPerUsd.toNat
    if num < 2 ^ 128 then min (num / 100_000_000 : Nat) i64Max else i64Max
  else i64Max

/-- The `latestRoundData()` function selector. -/
def latestRoundData : String := "0xfeaf968c"

def rpcBody (method : String) (params : List Json) : Json :=
  .obj [("jsonrpc", .str "2.0"), ("id", .unsigned 1), ("method", .str method), ("params", .arr params)]

/-- The `result` of a JSON-RPC answer: nothing on a transport failure, a status
outside 2xx, a body that is not JSON, or an `error` that is not null. -/
def rpcResult : Fetched → Option Json
  | .answered code (some value) =>
    if 200 ≤ code ∧ code < 300 then
      match value.get "error" with
      | some error => if error.isNull then some ((value.get "result").getD .null) else none
      | none => some ((value.get "result").getD .null)
    else none
  | .answered _ none | .failed => none

def ethCall (rpcUrl target data : String) : Handler (Option String) := do
  let fetched ← Systems.Handler.perform (Command.fetch rpcUrl
    (rpcBody "eth_call" [.obj [("to", .str target), ("data", .str data)], .str "latest"]))
  pure ((rpcResult fetched).bind Json.asStr)

def wordToU128 (word : List Char) : Except String Nat :=
  if (word.take 32).any (· != '0') then .error "word exceeds u128"
  else
    match fromStrRadix 128 16 (String.ofList (word.drop 32)) with
    | some value => .ok value
    | none => .error "bad hex word"

def decodeLatestRoundData (resultHex : String) (now : Nat) : Except String Nat := do
  match stripPrefix "0x" resultHex with
  | none => .error "result not 0x-prefixed"
  | some hex =>
    let chars := hex.toList
    if chars.length ≠ 320 ∨ chars.all isHexDigit = false then .error "result is not 0x + 320 hex chars"
    else
      let word (i : Nat) := (chars.drop (i * 64)).take 64
      match (word 1).head?.bind (toDigit 16) with
      | none => .error "bad answer word"
      | some top =>
        if top ≥ 8 then .error "chainlink answer is negative"
        else do
          let answer ← wordToU128 (word 1)
          if answer = 0 then .error "chainlink answer is zero"
          else do
            let updatedAt ← wordToU128 (word 3)
            if updatedAt ≥ 2 ^ 64 then .error "updatedAt exceeds u64"
            else if now - updatedAt > chainlinkMaxStaleSecs then .error "chainlink price is stale"
            else .ok answer

/-- A feed's latest price over `rpcUrl`; the text of a failure is only logged. -/
def chainlinkPrice (rpcUrl feed : String) (now : Nat) : Handler (Option Nat) := do
  let result ← ethCall rpcUrl feed latestRoundData
  pure (result.bind fun hex => (decodeLatestRoundData hex now).toOption)

end LetsEmbed.Rates
