import LetsEmbed.Payments

/-! Linking a Solana wallet to an account (`user_worker/src/solana_link.rs`). -/

namespace LetsEmbed.SolanaLink
open Payments Session Systems

def challengeMessage (ethAddr nonce : String) : String :=
  "Link Solana wallet to " ++ ethAddr ++ "\nNonce: " ++ nonce

def internalError : Answer := apiErr 500 "internal error"

def verifyEd25519B58 (st : AppState) (solanaAddress signature message : String) : Bool :=
  match base58Decode solanaAddress, base58Decode signature with
  | some key, some sig => key.length == 32 && sig.length == 64 && st.verifyStrict key sig message
  | _, _ => false

/-- A nonce that exists is used up; the two handlers differ in the status they
answer an unknown one with. -/
def useNonce (nonce : String) (unknown : Nat) : Handler Unit := do
  match ← Handler.perform (Command.getNonce ("nonce:" ++ nonce)) with
  | .error _ => throw internalError
  | .ok false => throw (apiErr unknown "unknown or expired nonce")
  | .ok true =>
    match ← Handler.perform (Command.deleteNonce ("nonce:" ++ nonce)) with
    | .error _ => throw internalError
    | .ok () => pure ()

structure LinkSolReq where
  solanaAddress : String
  signature : String
  nonce : String

/-- A wallet is linked to one account, and only if it is not an account itself. -/
def link (st : AppState) (session : Option String) (req : LinkSolReq) : Handler Answer := do
  match session with
  | none => throw (apiErr 401 "login required")
  | some addr => do
    useNonce req.nonce 400
    require (verifyEd25519B58 st req.solanaAddress req.signature (challengeMessage addr req.nonce))
      (throw (apiErr 400 "signature verification failed"))
    match ← Handler.perform (Command.selectUser req.solanaAddress) with
    | .error _ => throw internalError
    | .ok (some _) =>
      throw (apiErr 409 "this wallet already has its own account — log in with it directly instead of linking")
    | .ok none =>
      match ← Handler.perform (Command.selectOwner req.solanaAddress) with
      | .error _ => throw internalError
      | .ok owner => do
        require (owner.all (· = addr)) (throw (apiErr 409 "wallet already linked to another account"))
        match ← Handler.perform (Command.updateSolana addr (some req.solanaAddress)) with
        | .error .constraint => throw (apiErr 409 "wallet already linked to another account")
        | .error .other => throw internalError
        | .ok () => pure (.response 200 (.linked req.solanaAddress))

def unlink (session : Option String) : Handler Answer := do
  match session with
  | none => throw (apiErr 401 "login required")
  | some addr =>
    match ← Handler.perform (Command.updateSolana addr none) with
    | .error _ => throw internalError
    | .ok () => pure (.response 200 .empty)

end LetsEmbed.SolanaLink
