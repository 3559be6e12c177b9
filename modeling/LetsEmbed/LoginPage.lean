import LetsEmbed.Auth
import LetsEmbed.Pages
import LetsEmbed.Systems.Calendar
import LetsEmbed.Systems.Radix

/-! The buttons of `login.html` with a wallet on one side and the user worker on the other:
the messages the page has signed, and what it makes of the answers. -/

namespace LetsEmbed.LoginPage
open Auth Pages Systems

/-- The page as it was served. Its script reads the chain id as a number, which is exact
below 2^53. -/
structure Page where
  host : String
  origin : String
  next : Option String
  chainId : Nat
  siweDomain : String
  exact : chainId < 2 ^ 53

/-- `login_page` of `pages.rs`, opened at this address. -/
def loginPage (st : SiweState) (exact : st.chainId < 2 ^ 53) (host origin : String) (next : Option String) : Page :=
  ⟨host, origin, next, st.chainId, st.siweDomain, exact⟩

def digits (width n : Nat) : String := String.ofList ((Radix.spelled 10 width n).map Nat.digitChar)

/-- `new Date().toISOString()` of the milliseconds since 1970. -/
def toISOString (ms : Nat) : String :=
  let secs := ms / 1000
  let (year, month, day) := Calendar.civil (Calendar.ordinal 1970 1 1 + secs / 86_400)
  (if year < 10_000 then digits 4 year else "+" ++ digits 6 year) ++ "-" ++ digits 2 month ++ "-" ++ digits 2 day ++ "T" ++
    digits 2 (secs / 3600 % 24) ++ ":" ++ digits 2 (secs / 60 % 60) ++ ":" ++ digits 2 (secs % 60) ++ "." ++
    digits 3 (ms % 1000) ++ "Z"

example : toISOString 1_783_116_000_250 = "2026-07-03T22:00:00.250Z" := by decide +kernel

/-- The template of the message, line by line. -/
def message (page : Page) (addr nonce issuedAt : String) : String :=
  "\n".intercalate [page.host ++ " wants you to sign in with your Ethereum account:", addr, "", "Sign in to lets_embed", "",
    "URI: " ++ page.origin ++ "/user/login", "Version: 1", "Chain ID: " ++ toString page.chainId, "Nonce: " ++ nonce,
    "Issued At: " ++ issuedAt]

def solanaMessage (page : Page) (nonce : String) : String :=
  "Sign in to lets_embed with Solana\nDomain: " ++ page.siweDomain ++ "\nNonce: " ++ nonce

/-- Wallets hand out signatures as text or as bytes. -/
inductive Signature where
  | text (s : String)
  | bytes (b : List UInt8)

def Signature.base58 : Signature → String
  | .text s => s
  | .bytes b => bs58encode b

/-- What the script awaits, each of which may throw, and the time. -/
inductive Command where
  | requestAccounts
  | fetchNonce
  | time
  | personalSign (message addr : String)
  | fetchVerify (req : VerifyReq)
  | connect
  | signMessage (message : String)
  | fetchVerifySolana (req : SiwsReq)

abbrev Command.Reply : Command → Type
  | .requestAccounts => Except String (List String)
  | .fetchNonce => Except String (Except Nat String)
  | .time => Nat
  | .personalSign .. => Except String String
  | .fetchVerify _ | .fetchVerifySolana _ => Except String LetsEmbed.Answer
  | .connect => Except String (Option String)
  | .signMessage _ => Except String Signature

/-- The script ends with a message on the page, or somewhere else. -/
abbrev Script := Systems.Handler Command Command.Reply String

def await {α : Type} : Except String α → Script α
  | .ok value => pure value
  | .error message => throw message

/-- The answer to a sign-in. An empty text of the worker's does not hide the status. -/
def land (page : Page) (what : String) : LetsEmbed.Answer → Script String
  | .panic => throw (what ++ " (500)")
  | .response status body =>
    if 200 ≤ status ∧ status < 300 then pure (nextUrl page.next)
    else
      match body with
      | .error message => throw (if message = "" then what ++ " (" ++ toString status ++ ")" else message)
      | _ => throw (what ++ " (" ++ toString status ++ ")")

def fetchNonce : Script String := do
  match ← await (← Handler.perform Command.fetchNonce) with
  | .error status => throw ("failed to fetch nonce (" ++ toString status ++ ")")
  | .ok nonce => pure nonce

def signIn (page : Page) : Script String := do
  let accounts ← await (← Handler.perform Command.requestAccounts)
  match accounts with
  | [] => throw "no account returned by the wallet"
  | addr :: _ => do
    if addr = "" then throw "no account returned by the wallet"
    let nonce ← fetchNonce
    let ms ← Handler.perform Command.time
    let message := message page addr nonce (toISOString ms)
    let signature ← await (← Handler.perform (Command.personalSign message addr))
    land page "sign-in failed" (← await (← Handler.perform (Command.fetchVerify ⟨message, signature⟩)))

def signInSolana (page : Page) : Script String := do
  match ← await (← Handler.perform Command.connect) with
  | none => throw ("No Solana-capable wallet found. Enable Solana in MetaMask (or install Phantom / another Solana wallet), " ++
      "then reload.")
  | some address => do
    let nonce ← fetchNonce
    let signature ← await (← Handler.perform (Command.signMessage (solanaMessage page nonce)))
    land page "Solana sign-in failed"
      (← await (← Handler.perform (Command.fetchVerifySolana ⟨address, signature.base58, nonce⟩)))

structure Wallet where
  accounts : List String
  personalSign : (message addr : String) → String
  solana : String
  signMessage : (message : String) → Signature

/-- The surroundings of one visit: nothing fails, and the clocks stand still. -/
structure Visit where
  wallet : Wallet
  st : SiweState
  ms : Nat
  now : Nat
  uuid : String

def merge : Except LetsEmbed.Answer LetsEmbed.Answer → LetsEmbed.Answer
  | .ok answer | .error answer => answer

/-- A handler of the worker, by itself. -/
def Visit.worker (visit : Visit) (handler : LetsEmbed.Handler LetsEmbed.Answer) (w : World) : LetsEmbed.Answer × World :=
  let (answer, w) := handler.run.run (fun w command => LetsEmbed.serve w command ⟨.none, visit.now, .failed⟩) w
  (merge answer, w)

/-- `nonce` of `auth.rs`. The entry's lifetime is longer than the visit. -/
def Visit.nonce (visit : Visit) (w : World) : World :=
  { w with nonces := Function.update w.nonces ("nonce:" ++ visit.uuid) true }

def Visit.serve (visit : Visit) (w : World) : (command : Command) → command.Reply × World
  | .requestAccounts => (.ok visit.wallet.accounts, w)
  | .fetchNonce => (.ok (.ok visit.uuid), visit.nonce w)
  | .time => (visit.ms, w)
  | .personalSign message addr => (.ok (visit.wallet.personalSign message addr), w)
  | .fetchVerify req =>
    let (answer, w) := visit.worker (verify visit.st req) w
    (.ok answer, w)
  | .connect => (.ok (some visit.wallet.solana), w)
  | .signMessage message => (.ok (visit.wallet.signMessage message), w)
  | .fetchVerifySolana req =>
    let (answer, w) := visit.worker (verifySolana visit.st.toAppState req) w
    (.ok answer, w)

end LetsEmbed.LoginPage
