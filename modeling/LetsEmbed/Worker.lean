import LetsEmbed.Auth
import LetsEmbed.Systems.Pool

/-! The worker's requests that spend transactions or move wallets, side by side
over the shared services. -/

namespace LetsEmbed.Worker
open Auth Payments SolanaLink Systems

inductive Request where
  | topup (session : Option String) (req : TopupReq)
  | link (session : Option String) (req : LinkSolReq)
  | unlink (session : Option String)
  | verifySolana (req : SiwsReq)

def handle (st : AppState) : Request → Handler Answer
  | .topup session req => topup st session req
  | .link session req => link st session req
  | .unlink session => unlink session
  | .verifySolana req => verifySolana st req

def launch (st : AppState) (request : Request) : Program Command Command.Reply (Except Answer Answer) :=
  (handle st request).run

abbrev Served := Systems.Served Command Command.Reply World Choice

def machine (st : AppState) (start : World) := Pool.machine serve (launch st) start

/-- Every request that takes a nonce, and the others. -/
inductive Arrival where
  | verify (req : VerifyReq)
  | other (request : Request)

def Arrival.launch (st : SiweState) : Arrival → Program Command Command.Reply (Except Answer Answer)
  | .verify req => (Auth.verify st req).run
  | .other request => Worker.launch st.toAppState request

def arrivals (st : SiweState) (start : World) := Pool.machine serve (Arrival.launch st) start

end LetsEmbed.Worker
