import LetsEmbed.Siwe
import LetsEmbed.SolanaLink

/-! Signing in with an Ethereum message, or with a Solana wallet as an account of
its own (`user_worker/src/auth.rs`). -/

namespace LetsEmbed.Auth
open Config Payments Session Siwe SolanaLink Systems

def siwsChallenge (domain nonce : String) : String :=
  "Sign in to lets_embed with Solana\nDomain: " ++ domain ++ "\nNonce: " ++ nonce

structure SiwsReq where
  solanaAddress : String
  signature : String
  nonce : String

/-- A wallet linked to another account cannot sign in; the account is created on
first sight. -/
def verifySolana (st : AppState) (req : SiwsReq) : Handler Answer := do
  require (isSolPrincipal req.solanaAddress) (throw (apiErr 400 "invalid solana address"))
  useNonce req.nonce 401
  require (verifyEd25519B58 st req.solanaAddress req.signature (siwsChallenge st.siweDomain req.nonce))
    (throw (apiErr 401 "signature verification failed"))
  let addr := req.solanaAddress
  let now ← Handler.perform Command.now
  match ← Handler.perform (Command.selectOwner addr) with
  | .error _ => throw internalError
  | .ok (some _) => throw (apiErr 409 "this wallet is linked to another account — unlink it there first")
  | .ok none =>
    match ← Handler.perform (Command.upsertUser addr now) with
    | .error _ => throw internalError
    | .ok () =>
      match ← Handler.perform (Command.selectBanned addr) with
      | .error _ => throw internalError
      | .ok banned => do
        require (!banned.getD false) (throw (apiErr 403 "account banned"))
        match ← Handler.perform (Command.doInit addr) with
        | .error _ => throw internalError
        | .ok _ => pure (.response 200 (.session addr now (now + sessionTtlSecs)))

/-- `recover_address` is keccak and secp256k1. -/
structure SiweState extends AppState where
  chainId : Nat
  recoverAddress : (message signature : String) → Except SiweError String

structure VerifyReq where
  message : String
  signature : String

def checkTimestamps (msg : SiweMessage) (now : Nat) : Except String Unit :=
  match parseRfc3339Epoch msg.issuedAt with
  | none => .error "invalid issued-at timestamp"
  | some iat =>
    if max now iat - min now iat > siweMaxAgeSecs then .error "message issued-at out of range"
    else
      match msg.expirationTime with
      | none => .ok ()
      | some text =>
        match parseRfc3339Epoch text with
        | none => .error "invalid expiration timestamp"
        | some exp => if exp ≤ now then .error "message expired" else .ok ()

/-- The same as `verifySolana` once the signer is known; linked wallets are no
concern of an Ethereum account. -/
def verify (st : SiweState) (req : VerifyReq) : Handler Answer := do
  match parseSiwe req.message with
  | .error e => throw (apiErr 400 e.text)
  | .ok msg => do
    require (msg.domain = st.siweDomain) (throw (apiErr 401 "domain mismatch"))
    require (msg.version = "1") (throw (apiErr 401 "unsupported version"))
    require (msg.chainId = st.chainId) (throw (apiErr 401 "chain id mismatch"))
    let now ← Handler.perform Command.now
    match checkTimestamps msg now with
    | .error message => throw (apiErr 401 message)
    | .ok () => do
      useNonce msg.nonce 401
      match st.recoverAddress req.message req.signature with
      | .error e => throw (apiErr 401 e.text)
      | .ok addr => do
        require (addr = st.toLowercase msg.address) (throw (apiErr 401 "signature does not match address"))
        match ← Handler.perform (Command.upsertUser addr now) with
        | .error _ => throw internalError
        | .ok () =>
          match ← Handler.perform (Command.selectBanned addr) with
          | .error _ => throw internalError
          | .ok banned => do
            require (!banned.getD false) (throw (apiErr 403 "account banned"))
            match ← Handler.perform (Command.doInit addr) with
            | .error _ => throw internalError
            | .ok _ => pure (.response 200 (.session addr now (now + sessionTtlSecs)))

end LetsEmbed.Auth
