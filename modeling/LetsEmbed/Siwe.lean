import LetsEmbed.Text

/-! Reading an EIP-4361 message line by line, and its timestamps
(`user_worker/src/siwe.rs`). Recovering the signer is left to a parameter. -/

namespace LetsEmbed.Siwe
open Text

/-- The address is kept as written. -/
structure SiweMessage where
  domain : String
  address : String
  statement : Option String
  uri : String
  version : String
  chainId : Nat
  nonce : String
  issuedAt : String
  expirationTime : Option String
  deriving DecidableEq

inductive SiweError where
  | parse (what : String)
  | badSignature
  | badHex
  deriving DecidableEq

def SiweError.text : SiweError → String
  | .parse what => "siwe parse error: " ++ what
  | .badSignature => "invalid signature"
  | .badHex => "invalid hex"

def preambleSuffix : String := " wants you to sign in with your Ethereum account:"

def lines (msg : String) : List String := (split '\n' msg).map fun l => (stripSuffix "\r" l).getD l

def next (what : String) : List String → Except SiweError (String × List String)
  | [] => .error (.parse what)
  | l :: rest => .ok (l, rest)

def field (name start : String) (lines : List String) : Except SiweError (String × List String) := do
  let (l, rest) ← next name lines
  match stripPrefix start l with
  | some value => pure (value, rest)
  | none => .error (.parse name)

/-- The statement ends at a blank line. Without one the first line is a field
already, or blank itself. -/
def statementLines (first : Bool) : List String → Except SiweError (List String × List String)
  | [] => .error (.parse "unterminated statement")
  | l :: rest =>
    if first && startsWith l "URI: " then .ok ([], l :: rest)
    else if l = "" then .ok ([], rest)
    else do
      let (block, rest) ← statementLines false rest
      pure (l :: block, rest)

/-- Tolerated trailing fields. Items belong to a list of resources as long as it
lasts. -/
def trailing (resources : Bool) : List String → Except SiweError Unit
  | [] => .ok ()
  | l :: rest =>
    if resources && startsWith l "- " then trailing true rest
    else if startsWith l "Not Before: " || startsWith l "Request ID: " then trailing false rest
    else if l = "Resources:" then trailing true rest
    else if l = "" ∧ ∀ r ∈ rest, r = "" then .ok ()
    else .error (.parse "unexpected trailing line")

def expiration : List String → Option String × List String
  | [] => (none, [])
  | l :: rest =>
    match stripPrefix "Expiration Time: " l with
    | some value => (some value, rest)
    | none => (none, l :: rest)

def parseSiwe (msg : String) : Except SiweError SiweMessage := do
  let (first, rest) ← next "missing preamble" (lines msg)
  let domain ← match stripSuffix preambleSuffix first with
    | some domain => pure domain
    | none => .error (.parse "bad preamble")
  if domain = "" then .error (.parse "empty domain")
  let (address, rest) ← next "missing address" rest
  if address = "" then .error (.parse "empty address")
  let (blank, rest) ← next "missing blank line" rest
  if blank ≠ "" then .error (.parse "expected blank line after address")
  let (block, rest) ← statementLines true rest
  let statement := if block.isEmpty then none else some ("\n".intercalate block)
  let (uri, rest) ← field "expected URI" "URI: " rest
  let (version, rest) ← field "expected Version" "Version: " rest
  let (chain, rest) ← field "expected Chain ID" "Chain ID: " rest
  let chainId ← match fromStrRadix 64 10 chain with
    | some id => pure id
    | none => .error (.parse "bad chain id")
  let (nonce, rest) ← field "expected Nonce" "Nonce: " rest
  let (issuedAt, rest) ← field "expected Issued At" "Issued At: " rest
  let (expirationTime, rest) := expiration rest
  trailing false rest
  pure ⟨domain, address, statement, uri, version, chainId, nonce, issuedAt, expirationTime⟩

section Timestamps
variable (b : List UInt8)

def isDigit (byte : UInt8) : Bool := 48 ≤ byte && byte ≤ 57

/-- The decimal digits of a range of bytes, if it is there and has no others. -/
def num (start stop : Nat) : Option Nat :=
  let part := (b.drop start).take (stop - start)
  if stop ≤ b.length ∧ part.all isDigit then some (part.foldl (fun value digit => value * 10 + (digit.toNat - 48)) 0)
  else none

def sep (i : Nat) (c : Char) : Bool := b[i]? = some (UInt8.ofNat c.toNat)

/-- `Z` or `±HH:MM`, up to the end of the text. -/
def offsetSecs (i : Nat) : Option Int :=
  if (sep b i 'Z' || sep b i 'z') && i + 1 = b.length then some 0
  else if (sep b i '+' || sep b i '-') && i + 6 = b.length && sep b (i + 3) ':' then do
    let oh ← num b (i + 1) (i + 3)
    let om ← num b (i + 4) (i + 6)
    if oh > 23 ∨ om > 59 then none
    else
      let mag : Int := oh * 3600 + om * 60
      some (if sep b i '+' then mag else -mag)
  else none

/-- Days since 1970-01-01, by eras of 400 years that begin in March. -/
def daysFromCivil (year month day : Nat) : Int :=
  let y : Int := if month ≤ 2 then year - 1 else year
  let era := y / 400
  let yoe := y - era * 400
  let doy : Int := (153 * (if month > 2 then month - 3 else month + 9) + 2) / 5 + day - 1
  let doe := yoe * 365 + yoe / 4 - yoe / 100 + doy
  era * 146097 + doe - 719468

/-- Where the offset starts: behind the fraction, if there is one. -/
def offsetStart : Option Nat :=
  if sep b 19 '.' then
    let digits := ((b.drop 20).takeWhile isDigit).length
    if digits = 0 then none else some (20 + digits)
  else some 19

end Timestamps

def parseRfc3339Epoch (s : String) : Option Nat := do
  let b := bytes s
  if b.length < 20 then none
  let year ← num b 0 4
  let month ← num b 5 7
  let day ← num b 8 10
  let hour ← num b 11 13
  let min ← num b 14 16
  let sec ← num b 17 19
  if !(sep b 4 '-' && sep b 7 '-') || !(sep b 10 'T' || sep b 10 't') || !sep b 13 ':' || !sep b 16 ':' then none
  if month < 1 ∨ 12 < month ∨ day < 1 ∨ 31 < day ∨ hour > 23 ∨ min > 59 ∨ sec > 59 then none
  let i ← offsetStart b
  let offset ← offsetSecs b i
  let epoch := daysFromCivil year month day * 86400 + (hour * 3600 + min * 60 + sec : Nat) - offset
  if epoch < 0 then none else some epoch.toNat

example : parseRfc3339Epoch "2026-07-04T00:00:00.25+02:00" = some 1_783_116_000 := by decide +kernel

end LetsEmbed.Siwe
