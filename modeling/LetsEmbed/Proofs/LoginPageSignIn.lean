import LetsEmbed.Proofs.LoginPageMessages
import LetsEmbed.Proofs.PagesBase58
import LetsEmbed.Proofs.PaymentsRules

/-! A visit to the login page from the click to the redirect, with the worker's handlers
run where the page fetches them. -/

namespace LetsEmbed.LoginPage
open Auth Config Pages Payments Session Siwe SolanaLink Systems

section Worker
variable {st : SiweState} {now iat : Nat} {w : World} {addr : String}

/-- The services on a day when nothing fails. -/
def quiet (now : Nat) (w : World) (command : LetsEmbed.Command) : command.Reply × World :=
  LetsEmbed.serve w command ⟨.none, now, .failed⟩

def suspended (w : World) (addr : String) : Bool := ((w.user addr).map (·.banned)).getD false

/-- What a login leaves behind. -/
def entered (w : World) (addr : String) (now : Nat) : World :=
  (w.upsertUser addr now).setAccount addr (Account.init (w.accounts addr) now addr).2

def spent (w : World) (nonce : String) : World := { w with nonces := Function.update w.nonces ("nonce:" ++ nonce) false }

theorem upsertUser_banned : ((w.upsertUser addr now).user addr).map (·.banned) = some (suspended w addr) := by
  have refreshed (row : UserRow) : (if row.address = addr then { row with lastLogin := now } else row).address = row.address := by
    split <;> rfl
  rw [suspended, World.upsertUser]
  cases known : w.user addr with
  | some row =>
    have named : row.address = addr := by
      rw [World.user] at known
      have found := List.find?_some known
      exact of_decide_eq_true found
    rw [Option.isSome_some, if_pos rfl, World.user, List.find?_map]
    have same : ((fun row : UserRow => decide (row.address = addr)) ∘ fun row : UserRow =>
        if row.address = addr then { row with lastLogin := now } else row) = fun row => decide (row.address = addr) := by
      funext row
      rw [Function.comp, refreshed]
    rw [World.user] at known
    rw [same, known, Option.map_some, Option.map_some, if_pos named]
    rfl
  | none =>
    rw [Option.isSome_none, if_neg Bool.false_ne_true, World.user, List.find?_append]
    rw [World.user] at known
    rw [known, Option.none_or, List.find?_singleton, if_pos (decide_eq_true rfl)]
    rfl

theorem upsertUser_accounts : (w.upsertUser addr now).accounts = w.accounts := by
  rw [World.upsertUser]
  split <;> rfl

abbrev Runs {α : Type} (now : Nat) (handler : LetsEmbed.Handler α) (ok : World → α → Prop) (exit : World → LetsEmbed.Answer → Prop)
    (w : World) : Prop := handler.wp (Program.steady (quiet now)) ok exit w

def Refused (answer : LetsEmbed.Answer) : Prop := ∃ status text, 300 ≤ status ∧ answer = apiErr status text

theorem runs_ask {α : Type} {command : LetsEmbed.Command} {next : command.Reply → LetsEmbed.Handler α} {ok : World → α → Prop}
    {exit : World → LetsEmbed.Answer → Prop} {reply : command.Reply} {late : World}
    (served : quiet now w command = (reply, late)) (goes : Runs now (next reply) ok exit late) :
    Runs now (Handler.perform command >>= next) ok exit w := by
  rw [Runs, Handler.wp_bind, Handler.wp_perform, Program.step_steady, served]
  exact goes

/-- Signed in, as it was to be. -/
def Enters (ready : Prop) (addr : String) (now : Nat) (w late : World) (answer : LetsEmbed.Answer) : Prop :=
  ready ∧ answer = .response 200 (.session addr now (now + sessionTtlSecs)) ∧ late = entered w addr now

def Refuses (ready : Prop) (_ : World) (answer : LetsEmbed.Answer) : Prop := ¬ ready ∧ Refused answer

/-- How both logins end, once the account has a row. -/
theorem enters_runs (ready : Prop) (same : ready ↔ suspended w addr = false) : Runs now (do
      match ← Handler.perform (LetsEmbed.Command.selectBanned addr) with
      | .error _ => throw SolanaLink.internalError
      | .ok banned => do
        require (!banned.getD false) (throw (apiErr 403 "account banned"))
        match ← Handler.perform (LetsEmbed.Command.doInit addr) with
        | .error _ => throw SolanaLink.internalError
        | .ok _ => pure (.response 200 (.session addr now (now + sessionTtlSecs))) : LetsEmbed.Handler LetsEmbed.Answer)
    (Enters ready addr now w) (Refuses ready) (w.upsertUser addr now) := by
  have looked : quiet now (w.upsertUser addr now) (.selectBanned addr) = (.ok (some (suspended w addr)), w.upsertUser addr now) := by
    rw [← upsertUser_banned]
    rfl
  apply runs_ask looked
  refine (Handler.wp_bind _ _).mpr (require_rule (fun free => ?_) fun banned => (Handler.wp_throw _).mpr ?_)
  · apply runs_ask rfl
    refine (Handler.wp_pure _).mpr ⟨same.mpr ((Bool.not_eq_true' _).mp free), rfl, ?_⟩
    rw [entered, ← @upsertUser_accounts now w addr]
    rfl
  · have barred := (Bool.not_eq_false' _).mp banned
    exact ⟨fun clear => Bool.noConfusion (barred.symm.trans (same.mp clear)), 403, _, by decide, rfl⟩

theorem useNonce_runs {nonce : String} {unknown : Nat} {ok : World → Unit → Prop} {exit : World → LetsEmbed.Answer → Prop}
    (known : w.nonces ("nonce:" ++ nonce) = true) (next : ok (spent w nonce) ()) : Runs now (useNonce nonce unknown) ok exit w := by
  have found : quiet now w (.getNonce ("nonce:" ++ nonce)) = (.ok true, w) := by
    rw [← known]
    rfl
  apply runs_ask found
  apply runs_ask rfl
  exact (Handler.wp_pure ()).mpr next

theorem require_runs {condition : Bool} {otherwise : LetsEmbed.Handler Unit} {ok : World → Unit → Prop}
    {exit : World → LetsEmbed.Answer → Prop} (holds : condition = true) (next : ok w ()) : Runs now (require condition otherwise) ok exit w :=
  require_rule (fun _ => next) fun fails => absurd (holds.symm.trans fails) (by decide)

/-- From the host the worker is for, at about its time, by somebody it lets in. -/
def Ready (st : SiweState) (now iat : Nat) (w : World) (host addr : String) : Prop :=
  host = st.siweDomain ∧ max now iat - min now iat ≤ siweMaxAgeSecs ∧ suspended w addr = false

/-- A message for the worker's chain without an end of its own, with the signature of the
address it names. -/
theorem verify_runs {req : VerifyReq} {msg : SiweMessage} (parses : parseSiwe req.message = .ok msg)
    (version : msg.version = "1") (chain : msg.chainId = st.chainId) (issued : parseRfc3339Epoch msg.issuedAt = some iat)
    (lasting : msg.expirationTime = none) (nonce : w.nonces ("nonce:" ++ msg.nonce) = true)
    (recovers : st.recoverAddress req.message req.signature = .ok (st.toLowercase msg.address)) :
    Runs now (verify st req)
      (Enters (Ready st now iat w msg.domain (st.toLowercase msg.address)) (st.toLowercase msg.address) now (spent w msg.nonce))
      (Refuses (Ready st now iat w msg.domain (st.toLowercase msg.address))) w := by
  rw [verify, parses]
  refine (Handler.wp_bind _ _).mpr (require_rule (fun domain => ?_) fun foreign => (Handler.wp_throw _).mpr ?_)
  case refine_2 => exact ⟨fun ready => of_decide_eq_false foreign ready.1, 401, _, by decide, rfl⟩
  refine (Handler.wp_bind _ _).mpr (require_runs (decide_eq_true version) ?_)
  refine (Handler.wp_bind _ _).mpr (require_runs (decide_eq_true chain) ?_)
  apply runs_ask rfl
  rw [checkTimestamps, issued, lasting]
  dsimp only
  by_cases near : max now iat - min now iat ≤ siweMaxAgeSecs
  · rw [if_neg (Nat.not_lt.mpr near)]
    refine (Handler.wp_bind _ _).mpr (useNonce_runs nonce ?_)
    rw [recovers]
    refine (Handler.wp_bind _ _).mpr (require_runs (decide_eq_true rfl) ?_)
    apply runs_ask rfl
    have ready : Ready st now iat w msg.domain (st.toLowercase msg.address) ↔ suspended w (st.toLowercase msg.address) = false :=
      (and_iff_right (of_decide_eq_true domain)).trans (and_iff_right near)
    exact @enters_runs now (spent w msg.nonce) _ _ ready
  · rw [if_pos (Nat.not_le.mp near)]
    exact (Handler.wp_throw _).mpr ⟨fun ready => near ready.2.1, 401, _, by decide, rfl⟩

/-- A wallet signs with the key in its address, and hands out the bytes or their base58. -/
def Signs (st : AppState) (address text : String) (signature : Signature) : Prop :=
  ∃ key, base58Decode address = some key ∧ key.length = 32 ∧ ∃ bytes : List UInt8, bytes.length = 64 ∧
    st.verifyStrict key (bytes.map UInt8.toNat) text = true ∧
      (signature = .bytes bytes ∨ signature = .text (base58Encode (bytes.map UInt8.toNat)))

theorem signs_verifies {st : AppState} {address text : String} {signature : Signature} (signs : Signs st address text signature) :
    isSolPrincipal address = true ∧ verifyEd25519B58 st address signature.base58 text = true := by
  obtain ⟨key, decoded, size, bytes, length, verified, form⟩ := signs
  refine ⟨isSolPrincipal_iff.mpr ⟨key, decoded, size⟩, ?_⟩
  have spelled : signature.base58 = base58Encode (bytes.map UInt8.toNat) := by
    rcases form with rfl | rfl
    · exact bs58encode_eq bytes
    · rfl
  have read : base58Decode signature.base58 = some (bytes.map UInt8.toNat) := base58Decode_eq_some.mpr ⟨bytes_lt bytes, spelled⟩
  rw [verifyEd25519B58, decoded, read]
  simp [size, length, verified]

/-- A wallet that is an account of its own, with a signature of its key. -/
theorem verifySolana_runs {req : SiwsReq} (principal : isSolPrincipal req.solanaAddress = true)
    (nonce : w.nonces ("nonce:" ++ req.nonce) = true)
    (signed : verifyEd25519B58 st.toAppState req.solanaAddress req.signature (siwsChallenge st.siweDomain req.nonce) = true) :
    Runs now (verifySolana st.toAppState req)
      (Enters (w.owner req.solanaAddress = none ∧ suspended w req.solanaAddress = false) req.solanaAddress now (spent w req.nonce))
      (Refuses (w.owner req.solanaAddress = none ∧ suspended w req.solanaAddress = false)) w := by
  refine (Handler.wp_bind _ _).mpr (require_runs principal ?_)
  refine (Handler.wp_bind _ _).mpr (useNonce_runs nonce ?_)
  refine (Handler.wp_bind _ _).mpr (require_runs signed ?_)
  have timed : quiet now (spent w req.nonce) .now = (now, spent w req.nonce) := rfl
  apply runs_ask timed
  have looked : quiet now (spent w req.nonce) (.selectOwner req.solanaAddress) =
      (.ok (w.owner req.solanaAddress), spent w req.nonce) := rfl
  apply runs_ask looked
  cases owned : w.owner req.solanaAddress with
  | some owner => exact (Handler.wp_throw _).mpr ⟨fun both => Option.some_ne_none _ both.1, 409, _, by decide, rfl⟩
  | none =>
    have free : (none : Option String) = none ∧ suspended w req.solanaAddress = false ↔ suspended w req.solanaAddress = false :=
      and_iff_right rfl
    apply runs_ask rfl
    exact @enters_runs now (spent w req.nonce) req.solanaAddress _ free

end Worker

section Page
variable {visit : Visit} {w w' : World} {ready : Prop} {addr : String}

/-- What the page is answered. -/
theorem worker_of_runs {handler : LetsEmbed.Handler LetsEmbed.Answer}
    (runs : Runs visit.now handler (Enters ready addr visit.now w') (Refuses ready) w) :
    (ready ∧ visit.worker handler w =
        (.response 200 (.session addr visit.now (visit.now + sessionTtlSecs)), entered w' addr visit.now)) ∨
      ¬ ready ∧ Refused (visit.worker handler w).1 := by
  have ended := Handler.wp_steady.mp runs
  have outcome : visit.worker handler w = (merge (handler.run.run (quiet visit.now) w).1, (handler.run.run (quiet visit.now) w).2) := rfl
  rw [outcome]
  cases result : (handler.run.run (quiet visit.now) w).1 with
  | ok answer =>
    rw [result] at ended
    obtain ⟨clear, rfl, left⟩ := ended
    exact .inl ⟨clear, by rw [left]; rfl⟩
  | error answer =>
    rw [result] at ended
    exact .inr ended

variable {page : Page} {what : String}

abbrev Visits {α : Type} (visit : Visit) (script : Script α) (ok : World → α → Prop) (exit : World → String → Prop) (w : World) : Prop :=
  script.wp (Program.steady visit.serve) ok exit w

theorem visits_ask {α : Type} {command : Command} {next : command.Reply → Script α} {ok : World → α → Prop}
    {exit : World → String → Prop} {reply : command.Reply} {late : World} (served : visit.serve w command = (reply, late))
    (goes : Visits visit (next reply) ok exit late) : Visits visit (Handler.perform command >>= next) ok exit w := by
  rw [Visits, Handler.wp_bind, Handler.wp_perform, Program.step_steady, served]
  exact goes

theorem serve_fetchVerify (req : VerifyReq) : visit.serve w (.fetchVerify req) =
    (.ok (visit.worker (verify visit.st req) w).1, (visit.worker (verify visit.st req) w).2) := by
  rw [Visit.serve]

theorem serve_fetchVerifySolana (req : SiwsReq) : visit.serve w (.fetchVerifySolana req) =
    (.ok (visit.worker (verifySolana visit.st.toAppState req) w).1, (visit.worker (verifySolana visit.st.toAppState req) w).2) := by
  rw [Visit.serve]

theorem land_visits {result : LetsEmbed.Answer × World}
    (answered : (ready ∧ result = (.response 200 (.session addr visit.now (visit.now + sessionTtlSecs)), entered w' addr visit.now)) ∨
      ¬ ready ∧ Refused result.1) :
    Visits visit (land page what result.1)
      (fun late location => ready ∧ location = nextUrl page.next ∧ late = entered w' addr visit.now) (fun _ _ => ¬ ready) result.2 := by
  rcases answered with ⟨clear, rfl⟩ | ⟨barred, status, message, other, refused⟩
  · exact (Handler.wp_pure _).mpr ⟨clear, rfl, rfl⟩
  · rw [refused, apiErr, land, if_neg fun inside => Nat.not_lt.mpr other inside.2]
    exact (Handler.wp_throw _).mpr barred

theorem fetchNonce_visits {ok : World → String → Prop} {exit : World → String → Prop} (next : ok (visit.nonce w) visit.uuid) :
    Visits visit fetchNonce ok exit w := by
  apply visits_ask rfl
  exact (Handler.wp_bind _ _).mpr ((Handler.wp_pure _).mpr ((Handler.wp_pure _).mpr next))

theorem spent_nonce : spent (visit.nonce w) visit.uuid = spent w visit.uuid := by
  rw [spent, spent, Visit.nonce]
  dsimp only
  rw [Function.update_idem]

theorem ran_of_visits {script : Script String}
    (visits : Visits visit script (fun late location => ready ∧ location = nextUrl page.next ∧ late = entered w' addr visit.now)
      (fun _ _ => ¬ ready) w) :
    ((script.run.run visit.serve w).1 = .ok (nextUrl page.next) ↔ ready) ∧
      (ready → (script.run.run visit.serve w).2 = entered w' addr visit.now) := by
  have ended := Handler.wp_steady.mp visits
  cases result : (script.run.run visit.serve w).1 with
  | ok location =>
    rw [result] at ended
    obtain ⟨clear, rfl, left⟩ := ended
    exact ⟨iff_of_true rfl clear, fun _ => left⟩
  | error text =>
    rw [result] at ended
    exact ⟨iff_of_false (by simp) ended, fun clear => (ended clear).elim⟩

theorem message_runs {nonce issuedAt signature : String} {st : SiweState} {now iat : Nat} (chain : page.chainId = st.chainId)
    (hosted : page.host ≠ "") (named : addr ≠ "") (plain : ∀ value ∈ [page.host, page.origin, addr, nonce, issuedAt], OneLine value)
    (issued : parseRfc3339Epoch issuedAt = some iat) (known : w.nonces ("nonce:" ++ nonce) = true)
    (recovers : st.recoverAddress (message page addr nonce issuedAt) signature = .ok (st.toLowercase addr)) :
    Runs now (verify st ⟨message page addr nonce issuedAt, signature⟩)
      (Enters (Ready st now iat w page.host (st.toLowercase addr)) (st.toLowercase addr) now (spent w nonce))
      (Refuses (Ready st now iat w page.host (st.toLowercase addr))) w :=
  @verify_runs st now iat w ⟨message page addr nonce issuedAt, signature⟩ (parsed page addr nonce issuedAt)
    (message_parses hosted named plain) rfl chain issued rfl known recovers

/-- With a wallet that signs for its first account, the Ethereum button ends in the
redirect exactly where the page was opened on the worker's own host, by somebody whose
clock is near the worker's and who is not banned. The account's row and object are there
then, and the nonce is not. -/
theorem ethereum_button_lands (visit : Visit) (w : World) (exact : visit.st.chainId < 2 ^ 53) (host origin : String)
    (next : Option String) (rest : List String) (accounts : visit.wallet.accounts = addr :: rest) (named : addr ≠ "")
    (hosted : host ≠ "") (plain : ∀ value ∈ [host, origin, addr, visit.uuid], OneLine value) (early : visit.ms < farthest)
    (recovers : let text := message (loginPage visit.st exact host origin next) addr visit.uuid (toISOString visit.ms)
      visit.st.recoverAddress text (visit.wallet.personalSign text addr) = .ok (visit.st.toLowercase addr)) :
    let run := (signIn (loginPage visit.st exact host origin next)).run.run visit.serve w
    let ready := Ready visit.st visit.now (visit.ms / 1000) w host (visit.st.toLowercase addr)
    (run.1 = .ok (nextUrl next) ↔ ready) ∧
      (ready → run.2 = entered (spent w visit.uuid) (visit.st.toLowercase addr) visit.now) := by
  let page := loginPage visit.st exact host origin next
  have plainer : ∀ value ∈ [page.host, page.origin, addr, visit.uuid, toISOString visit.ms], OneLine value := by
    simp only [List.forall_mem_cons] at plain ⊢
    exact ⟨plain.1, plain.2.1, plain.2.2.1, plain.2.2.2.1, toISOString_oneLine _, List.forall_mem_nil _⟩
  have runs := @message_runs (visit.nonce w) addr page visit.uuid (toISOString visit.ms) _ visit.st visit.now (visit.ms / 1000) rfl
    hosted named plainer (toISOString_parses early) (Function.update_self ..) recovers
  apply @ran_of_visits visit w _ _ _ page
  have connected : visit.serve w .requestAccounts = (.ok (addr :: rest), w) := by
    rw [← accounts]
    rfl
  apply visits_ask connected
  refine (Handler.wp_bind _ _).mpr ((Handler.wp_pure _).mpr ?_)
  dsimp only
  rw [if_neg named]
  refine (Handler.wp_bind _ _).mpr (fetchNonce_visits ?_)
  apply visits_ask rfl
  apply visits_ask rfl
  refine (Handler.wp_bind _ _).mpr ((Handler.wp_pure _).mpr ?_)
  apply visits_ask (serve_fetchVerify _)
  refine (Handler.wp_bind _ _).mpr ((Handler.wp_pure _).mpr (land_visits ?_))
  rw [← @spent_nonce visit w]
  have same : Ready visit.st visit.now (visit.ms / 1000) (visit.nonce w) = Ready visit.st visit.now (visit.ms / 1000) w := rfl
  rw [same] at runs
  exact worker_of_runs runs

/-- With a wallet that signs with its own key, as bytes or as text, the Solana button ends
in the redirect exactly where the wallet is linked to no account and is not banned itself. -/
theorem solana_button_lands (visit : Visit) (w : World) (exact : visit.st.chainId < 2 ^ 53) (host origin : String)
    (next : Option String)
    (signs : let text := solanaMessage (loginPage visit.st exact host origin next) visit.uuid
      Signs visit.st.toAppState visit.wallet.solana text (visit.wallet.signMessage text)) :
    let run := (signInSolana (loginPage visit.st exact host origin next)).run.run visit.serve w
    let ready := w.owner visit.wallet.solana = none ∧ suspended w visit.wallet.solana = false
    (run.1 = .ok (nextUrl next) ↔ ready) ∧ (ready → run.2 = entered (spent w visit.uuid) visit.wallet.solana visit.now) := by
  let page := loginPage visit.st exact host origin next
  obtain ⟨principal, signed⟩ := signs_verifies signs
  have runs := @verifySolana_runs visit.st visit.now (visit.nonce w)
    ⟨visit.wallet.solana, (visit.wallet.signMessage (solanaMessage page visit.uuid)).base58, visit.uuid⟩ principal
    (Function.update_self ..) signed
  apply @ran_of_visits visit w _ _ _ page
  apply visits_ask rfl
  refine (Handler.wp_bind _ _).mpr ((Handler.wp_pure _).mpr ?_)
  refine (Handler.wp_bind _ _).mpr (fetchNonce_visits ?_)
  apply visits_ask rfl
  refine (Handler.wp_bind _ _).mpr ((Handler.wp_pure _).mpr ?_)
  apply visits_ask (serve_fetchVerifySolana _)
  refine (Handler.wp_bind _ _).mpr ((Handler.wp_pure _).mpr (land_visits ?_))
  rw [← @spent_nonce visit w]
  exact worker_of_runs runs

end Page

section Example

def sampleSignature : String :=
  "0x4a9402bc8c13836d6aa82f7a54034d73defccb939453603aeeeb17423dafbc6f5c0fadc976080166d6d696ee950a3fe4394a3b9c5c0bfe245f9488df9ed157751c"

def sampleBytes : List UInt8 :=
  [79, 231, 102, 166, 105, 221, 109, 151, 97, 135, 142, 81, 37, 64, 49, 102, 14, 250, 222, 216, 10, 75, 158, 158, 190, 6, 235,
    120, 113, 58, 186, 230, 44, 61, 75, 119, 165, 131, 199, 223, 37, 130, 107, 1, 190, 195, 83, 125, 90, 180, 201, 164, 27, 59,
    196, 129, 85, 185, 84, 3, 241, 127, 156, 4]

def sampleKey : List Nat :=
  [215, 90, 152, 1, 130, 177, 10, 183, 213, 75, 254, 211, 201, 100, 7, 58, 14, 225, 114, 243, 218, 166, 35, 37, 175, 2, 26, 104,
    247, 7, 81, 26]

def sampleUuid : String := "0f3c9be2d47a4d11b6c8a0e91d25f734"

def sampleText : String := "\n".intercalate ["localhost wants you to sign in with your Ethereum account:",
  "0x7E5F4552091A69125d5DfCb7b8C2659029395Bdf", "", "Sign in to lets_embed", "", "URI: https://localhost/user/login", "Version: 1",
  "Chain ID: 1", "Nonce: " ++ sampleUuid, "Issued At: 2026-07-03T22:00:00.250Z"]

/-- Both signatures are real ones, of the messages of the visit below. -/
def sampleState : SiweState where
  toLowercase s := String.ofList (s.toList.map Char.toLower)
  verifyStrict key bytes text :=
    key = sampleKey ∧ bytes = sampleBytes.map UInt8.toNat ∧
      text = "Sign in to lets_embed with Solana\nDomain: localhost\nNonce: " ++ sampleUuid
  rpcUrl := "https://ethereum.example"
  depositAddress := "0x000000000000000000000000000000000000dead"
  solRpcUrl := "https://solana.example"
  solDepositAddress := "586Z7H2vpX9qNhN2T4e9Utugie3ogjbxzGaMtM3E6HR5"
  siweDomain := "localhost"
  chainId := 1
  recoverAddress text signature :=
    if text = sampleText ∧ signature = sampleSignature then .ok "0x7e5f4552091a69125d5dfcb7b8c2659029395bdf" else .error .badSignature

def sampleVisit : Visit where
  wallet := ⟨["0x7E5F4552091A69125d5DfCb7b8C2659029395Bdf"], fun _ _ => sampleSignature,
    "FVen3X669xLzsi6N2V91DoiyzHzg1uAgqiT8jZ9nS96Z", fun _ => .bytes sampleBytes⟩
  st := sampleState
  ms := 1_783_116_000_250
  now := 1_783_116_007
  uuid := sampleUuid

def unvisited : World := ⟨fun _ => none, [], fun _ => false, fun _ => {}⟩

theorem ethereum_button_lands_checksummed :
    let page := loginPage sampleState (by decide) "localhost" "https://localhost" (some "/user/favorites")
    ((signIn page).run.run sampleVisit.serve unvisited).1 = .ok "/user/favorites" := by
  have landing : nextUrl (some "/user/favorites") = "/user/favorites" := by decide +kernel
  have plain : ∀ value ∈ ["localhost", "https://localhost", "0x7E5F4552091A69125d5DfCb7b8C2659029395Bdf", sampleUuid],
      OneLine value := by
    decide +kernel
  have ready : Ready sampleState 1_783_116_007 1_783_116_000 unvisited "localhost"
      (sampleState.toLowercase "0x7E5F4552091A69125d5DfCb7b8C2659029395Bdf") := ⟨rfl, by decide, rfl⟩
  intro page
  rw [← landing]
  exact (ethereum_button_lands sampleVisit unvisited (by decide) "localhost" "https://localhost" (some "/user/favorites") [] rfl
    (by decide) (by decide) plain (by decide) (by decide +kernel)).1.mpr ready

/-- The same wallet, before and after an account has linked it. -/
theorem solana_button_lands_linked :
    let page := loginPage sampleState (by decide) "localhost" "https://localhost" none
    let linked : World :=
      { unvisited with users := [⟨"0x7e5f4552091a69125d5dfcb7b8c2659029395bdf", 0, 0, false, some sampleVisit.wallet.solana⟩] }
    ((signInSolana page).run.run sampleVisit.serve unvisited).1 = .ok "/" ∧
      ((signInSolana page).run.run sampleVisit.serve linked).1 ≠ .ok "/" := by
  have landing : nextUrl none = "/" := by decide +kernel
  have known : base58Decode sampleVisit.wallet.solana = some sampleKey := by decide +kernel
  intro page linked
  have signed : sampleState.verifyStrict sampleKey (sampleBytes.map UInt8.toNat) (solanaMessage page sampleUuid) = true := by
    decide +kernel
  have signs : Signs sampleState.toAppState sampleVisit.wallet.solana (solanaMessage page sampleUuid) (.bytes sampleBytes) :=
    ⟨sampleKey, known, by decide, sampleBytes, by decide, signed, .inl rfl⟩
  have lands (w : World) := (solana_button_lands sampleVisit w (by decide) "localhost" "https://localhost" none signs).1
  rw [landing] at lands
  refine ⟨(lands unvisited).mpr ⟨rfl, rfl⟩, fun reached => ?_⟩
  have owned : linked.owner sampleVisit.wallet.solana = some "0x7e5f4552091a69125d5dfcb7b8c2659029395bdf" := by decide +kernel
  have free := ((lands linked).mp reached).1
  rw [owned] at free
  cases free

end Example

end LetsEmbed.LoginPage
