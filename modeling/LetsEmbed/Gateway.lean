import LetsEmbed.Account
import LetsEmbed.Systems.Program
import LetsEmbed.Text

/-! The gateway worker (`gateway_worker/src/lib.rs`): it verifies the session,
charges metered requests against the user's account object, and proxies what is
left to one of three upstreams with the Cloudflare Access service token. -/

namespace LetsEmbed.Gateway
open Account Text Systems

def apiUpstream : String := "https://lets-embed-api.louisfly.icu"
def imageUpstream : String := "https://lets-embed-image.louisfly.icu"
def videoUpstream : String := "https://lets-embed-video.louisfly.icu"
def sessionCookie : String := "ue_session"
def legacyTokenCookie : String := "gw_token"
def legacyAppCookie : String := "gw_app"

inductive Method where
  | get
  | head
  | post
  | other (name : String)
  deriving DecidableEq

structure SessionClaims where
  sub : String
  iat : Nat
  exp : Nat

/-- A request as the worker receives it. Header names are lowercase, and a value
is missing where it is not visible ASCII. The URI is its path and query. -/
structure Request where
  pathAndQuery : Option String
  method : Method
  headers : List (String × Option String)
  cookies : String → Option String
  body : List UInt8

/-- A subrequest; its headers hold one value a name. -/
structure Outgoing where
  target : String
  method : Method
  headers : List (String × String)
  body : Option (List UInt8)

structure Relayed where
  status : Nat
  body : List UInt8

inductive Sent where
  | unbuildable (error : String)
  | failed (error : String)
  | answered (response : Relayed)

inductive Answer where
  | text (status : Nat) (body : String)
  | json (status : Nat) (body : String)
  | page (status : Nat) (title body : String)
  | redirect (location : String)
  | relayed (response : Relayed)

/-- What the gateway asks of its surroundings. A charge is answered with the
account object's status, or not at all. -/
inductive Command where
  | now
  | charge (sub : String) (req : ChargeReq)
  | forwardUser (request : Outgoing)
  | send (request : Outgoing)

abbrev Command.Reply : Command → Type
  | .now => Nat
  | .charge .. => Option Nat
  | .forwardUser _ | .send _ => Sent

abbrev Handler := Systems.Handler Command Command.Reply Answer

structure State where
  jwtVerify : (token : String) → (now : Nat) → Option SessionClaims
  sha256Hex : String → String
  clientId : String
  clientSecret : String

def Request.path (r : Request) : String :=
  match r.pathAndQuery with
  | none => "/"
  | some pq => String.ofList (pq.toList.takeWhile (· != '?'))

def encodeNext (s : String) : String :=
  String.ofList (s.toList.flatMap fun
    | '%' => ['%', '2', '5']
    | '?' => ['%', '3', 'F']
    | '#' => ['%', '2', '3']
    | '&' => ['%', '2', '6']
    | c => [c])

def hexByte (b : UInt8) : Option UInt8 := (toDigit 16 (Char.ofNat b.toNat)).map UInt8.ofNat

/-- Plus signs to spaces, and percent escapes to bytes where they are whole. -/
def percentDecodeBytes : List UInt8 → List UInt8
  | 0x25 :: high :: low :: rest =>
    match hexByte high, hexByte low with
    | some h, some l => (h * 16 + l) :: percentDecodeBytes rest
    | _, _ => 0x25 :: percentDecodeBytes (high :: low :: rest)
  | 0x2B :: rest => 0x20 :: percentDecodeBytes rest
  | b :: rest => b :: percentDecodeBytes rest
  | [] => []

def percentDecode (s : String) : String := fromUtf8Lossy (percentDecodeBytes (bytes s))

def formField (body : List UInt8) (key : String) : Option String :=
  (split '&' (fromUtf8Lossy body)).findSome? fun pair =>
    match splitOnce '=' pair with
    | some (k, v) => if k = key then some (percentDecode v) else none
    | none => none

def mediaKind (path : String) : Option ChargeKind :=
  if startsWith path "/images/" then some .image
  else if startsWith path "/videos/" then some .video
  else none

def searchCharge (st : State) (path : String) (body : List UInt8) : Option (String × ChargeKind) :=
  if path = "/api/search_similar" then
    (formField body "q").map fun q => ("search:sim:" ++ q, .embedSearch)
  else if path = "/api/search_by_image" then
    (formField body "image").map fun img =>
      ("search:img:" ++ String.ofList ((st.sha256Hex img).toList.take 32), .search)
  else if path = "/api/search_by_desc" then
    (formField body "q").map fun q => ("search:desc:" ++ q, .search)
  else none

def isHopByHop (name : String) : Bool :=
  ["connection", "keep-alive", "proxy-authenticate", "proxy-authorization", "te", "trailers",
    "transfer-encoding", "upgrade", "host"].contains name

def sanitizeCookie (headers : List (String × Option String)) : Option String :=
  match headers.find? (·.1 = "cookie") with
  | some (_, some raw) =>
    let kept := ((split ';' raw).map trim).filter fun c =>
      let name := String.ofList (c.toList.takeWhile (· != '='))
      name != sessionCookie && name != legacyTokenCookie && name != legacyAppCookie
    if kept.isEmpty then none else some ("; ".intercalate kept)
  | _ => none

/-- `Headers::set`: one value a name, the last one set. -/
def setHeader (headers : List (String × String)) (name value : String) : List (String × String) :=
  headers.filter (·.1 ≠ name) ++ [(name, value)]

def copyHeaders (headers : List (String × Option String)) (leftOut : String → Bool) : List (String × String) :=
  headers.foldl (fun copied header =>
    match header with
    | (name, some value) => if leftOut name then copied else setHeader copied name value
    | (_, none) => copied) []

def copyBody (method : Method) (body : List UInt8) : Option (List UInt8) :=
  if method ≠ .get ∧ method ≠ .head ∧ body ≠ [] then some body else none

def forwardUser (r : Request) : Handler Answer := do
  let target := "https://user-worker" ++ r.pathAndQuery.getD "/"
  let reply ← Handler.perform (Command.forwardUser
    ⟨target, r.method, copyHeaders r.headers isHopByHop, copyBody r.method r.body⟩)
  match reply with
  | .answered response => pure (.relayed response)
  | .unbuildable _ | .failed _ => pure (.text 502 "user service unavailable")

def proxyTarget : Option String → String
  | some pq =>
    match stripPrefix "/images" pq, stripPrefix "/videos" pq with
    | some rest, _ => imageUpstream ++ rest
    | none, some rest => videoUpstream ++ rest
    | none, none => apiUpstream ++ pq
  | none => apiUpstream

/-- The proxied request: the client's headers, its other cookies, and the
service token over whatever the client sent under the token's names. -/
def outgoing (st : State) (r : Request) : Outgoing :=
  let headers := copyHeaders r.headers fun name => isHopByHop name || name = "cookie"
  let headers := match sanitizeCookie r.headers with
    | some c => setHeader headers "cookie" c
    | none => headers
  let headers := setHeader headers "cf-access-client-id" st.clientId
  let headers := setHeader headers "cf-access-client-secret" st.clientSecret
  ⟨proxyTarget r.pathAndQuery, r.method, headers, copyBody r.method r.body⟩

def proxy (st : State) (r : Request) : Handler Answer := do
  match ← Handler.perform (Command.send (outgoing st r)) with
  | .unbuildable e => pure (.text 500 ("build request failed: " ++ e))
  | .failed e => pure (.text 502 ("upstream fetch failed: " ++ e))
  | .answered response => pure (.relayed response)

def outOfPoints : Answer :=
  .page 402 "Out of points" "<div class=\"card center\">
<div class=\"icon\">🪙</div>
<span class=\"badge warn\">Out of points</span>
<h1 style=\"margin-top:14px\">Out of points</h1>
<p class=\"sub\" style=\"margin-bottom:0\">You have run out of points.
<a href=\"/user/account\">Top up your account &rarr;</a></p>
</div>"

/-- Charge the account, going on only after a 200. -/
def chargeOrAnswer (sub key : String) (kind : ChargeKind) (refused : Answer) : Handler Unit := do
  match ← Handler.perform (Command.charge sub ⟨key, kind⟩) with
  | some 200 => pure ()
  | some 402 => throw refused
  | some 403 => throw (.text 403 "account suspended")
  | some _ | none => throw (.text 502 "charge failed")

def isMediaPath (path : String) : Bool := startsWith path "/images/" || startsWith path "/videos/"

def session (st : State) (r : Request) : Handler (Option SessionClaims) := do
  match r.cookies sessionCookie with
  | none => pure none
  | some token => do
    let now ← Handler.perform Command.now
    pure (st.jwtVerify token now)

def meter (st : State) (r : Request) (sub : String) : Handler Unit :=
  match r.method with
  | .get =>
    match mediaKind r.path with
    | some kind => chargeOrAnswer sub r.path kind outOfPoints
    | none => pure ()
  | .post =>
    match searchCharge st r.path r.body with
    | some (key, kind) => chargeOrAnswer sub key kind (.json 402 "\x7b\"error\":\"out of points\"\x7d")
    | none => pure () -- no metered search, or a field that cannot be read
  | .head | .other _ => pure ()

def gateway (st : State) (r : Request) : Handler Answer := do
  if r.path = "/user" ∨ startsWith r.path "/user/" then forwardUser r
  else do
    match ← session st r with
    | none =>
      if isMediaPath r.path && (r.method = .get || r.method = .head) then pure (.text 401 "unauthorized")
      else pure (.redirect ("/user/login?next=" ++ encodeNext (r.pathAndQuery.getD "/")))
    | some claims => do
      meter st r claims.sub
      proxy st r

end LetsEmbed.Gateway
