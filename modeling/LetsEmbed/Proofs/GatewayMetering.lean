import LetsEmbed.Proofs.GatewayHosts

/-! Metering against routing. The charge is decided on the path, the target on the
path and query, by different tests of the media prefixes, and where a target leads
is up to the URL parser of the runtime. -/

namespace LetsEmbed.Gateway
open Account Text Systems Systems.Authority

abbrev History := List (Exchange Command Command.Reply)

/-- The charges of a run with their answers, newest first. -/
def charges (past : History) : List (ChargeReq × Option Nat) :=
  past.filterMap fun exchange =>
    match exchange with
    | ⟨.charge _ req, reply⟩ => some (req, reply)
    | _ => none

def mediaHost : ChargeKind → Option String
  | .image => some imageHost
  | .video => some videoHost
  | .search | .embedSearch => none

/-- How the runtime's fetch reads a URL. `site` gives its host, with the port unless
that is the scheme's own, or nothing when the URL does not parse; all that the upstreams'
addresses rely on is that a path leaves the host alone. -/
def Fetches (site : String → Option String) : Prop :=
  ∀ host ∈ upstreamHosts, ∀ path : OriginForm, site ("https://" ++ host ++ path.text) = some host

def Reaches (site : String → Option String) (target : String) (kind : ChargeKind) : Prop :=
  ∃ host, mediaHost kind = some host ∧ site target = some host

/-- The metered searches, each with the field it is read from. -/
def searches : List (String × String × ChargeKind) :=
  [("/api/search_similar", "q", .embedSearch), ("/api/search_by_image", "image", .search),
    ("/api/search_by_desc", "q", .search)]

def Readable (field : String) (body : List UInt8) : Prop :=
  ∃ value, field ++ "=" ++ value ∈ split '&' (fromUtf8Lossy body)

/-- What a request owes before it goes to the target: a GET by the upstream it
reaches, a POST by the search it is for. -/
def Owes (site : String → Option String) (r : Request) (target : String) (kind : ChargeKind) : Prop :=
  match r.method with
  | .get => Reaches site target kind
  | .post => ∃ field, (r.path, field, kind) ∈ searches ∧ Readable field r.body
  | .head | .other _ => False

/-- What is owed is charged once and answered with 200 before anything is sent,
nothing is sent after any other answer, and nothing else is charged. A GET is
charged under its path. -/
def Agreed (site : String → Option String) (r : Request) (past : History) : Command → Prop
  | .send out =>
    (∀ kind, Owes site r out.target kind →
      ∃ key, charges past = [(⟨key, kind⟩, some 200)] ∧ (r.method = .get → key = r.path)) ∧
      ∀ charge ∈ charges past, charge.2 = some 200
  | .charge _ req => Owes site r (proxyTarget r.pathAndQuery) req.kind ∧ (r.method = .get → req.path = r.path)
  | .now | .forwardUser _ => True

/-- What the gateway charges. -/
def chargeFor (st : State) (r : Request) : Option ChargeReq :=
  match r.method with
  | .get => (mediaKind r.path).map fun kind => ⟨r.path, kind⟩
  | .post => (searchCharge st r.path r.body).map fun charge => ⟨charge.1, charge.2⟩
  | .head | .other _ => none

section Rules
variable {st : State} {r : Request} {asks : History → Command → Prop} {past : History}

theorem chargeOrAnswer_rule {ok : History → Unit → Prop} {sub key : String} {kind : ChargeKind} {refused : Answer} :
    (chargeOrAnswer sub key kind refused).wp (Program.recording asks) ok (fun _ _ => True) past ↔
      asks past (.charge sub ⟨key, kind⟩) ∧ ok (⟨.charge sub ⟨key, kind⟩, some 200⟩ :: past) () := by
  simp only [chargeOrAnswer, Handler.wp_bind, Handler.wp_perform, Program.step_recording]
  apply and_congr_right
  intro _
  constructor
  · exact fun holds => (Handler.wp_pure ()).mp (holds (some 200))
  · intro done reply
    split
    · exact (Handler.wp_pure ()).mpr done
    all_goals exact (Handler.wp_throw _).mpr trivial

theorem meter_rule {ok : History → Unit → Prop} {sub : String} :
    (meter st r sub).wp (Program.recording asks) ok (fun _ _ => True) past ↔
      (chargeFor st r = none → ok past ()) ∧ ∀ req, chargeFor st r = some req →
        asks past (.charge sub req) ∧ ok (⟨.charge sub req, some 200⟩ :: past) () := by
  rw [meter, chargeFor]
  cases r.method with
  | get =>
    cases mediaKind r.path with
    | none => simp [Handler.wp_pure]
    | some kind => simp [chargeOrAnswer_rule]
  | post =>
    cases searchCharge st r.path r.body with
    | none => simp [Handler.wp_pure]
    | some charge => simp [chargeOrAnswer_rule]
  | head => simp [Handler.wp_pure]
  | other name => simp [Handler.wp_pure]

theorem proxy_rule {ok : History → Answer → Prop} (done : ∀ late answer, ok late answer) :
    (proxy st r).wp (Program.recording asks) ok (fun _ _ => True) past ↔ asks past (.send (outgoing st r)) := by
  simp only [proxy, Handler.wp_bind, Handler.wp_perform, Program.step_recording]
  apply and_iff_left
  intro reply
  cases reply <;> exact (Handler.wp_pure _).mpr (done _ _)

/-- What the gateway asks for, once the session is verified. -/
theorem gateway_rule (timed : ∀ past, asks past .now) (passed : ∀ past request, asks past (.forwardUser request)) :
    (gateway st r).wp (Program.recording asks) (fun _ _ => True) (fun _ _ => True) [] ↔
      (r.path = "/user" ∨ startsWith r.path "/user/" = true) ∨
      ∀ token, r.cookies sessionCookie = some token → ∀ now claims, st.jwtVerify token now = some claims →
        (chargeFor st r = none → asks [⟨.now, now⟩] (.send (outgoing st r))) ∧
        ∀ req, chargeFor st r = some req → asks [⟨.now, now⟩] (.charge claims.sub req) ∧
          asks [⟨.charge claims.sub req, some 200⟩, ⟨.now, now⟩] (.send (outgoing st r)) := by
  rw [gateway]
  by_cases user : r.path = "/user" ∨ startsWith r.path "/user/" = true
  · rw [if_pos user]
    refine iff_of_true ?_ (.inl user)
    apply Handler.wp_ask (passed _ _)
    intro reply
    cases reply <;> exact (Handler.wp_pure _).mpr trivial
  · rw [if_neg user, or_iff_right user, Handler.wp_bind, session]
    cases cookie : r.cookies sessionCookie with
    | none =>
      refine iff_of_true ?_ (by simp)
      rw [Handler.wp_pure]
      dsimp only
      split <;> exact (Handler.wp_pure _).mpr trivial
    | some token =>
      simp only [Handler.wp_bind, Handler.wp_perform, Program.step_recording, Handler.wp_pure, Option.some.injEq,
        forall_eq']
      rw [and_iff_right (timed _)]
      apply forall_congr'
      intro now
      cases verified : st.jwtVerify token now with
      | none =>
        refine iff_of_true ?_ (by simp)
        dsimp only
        split <;> exact (Handler.wp_pure _).mpr trivial
      | some claims =>
        simp only [Handler.wp_bind, meter_rule, Option.some.injEq, forall_eq', proxy_rule fun _ _ => trivial]

end Rules

section Text
variable {pq rest : String}

/-- Text after a media prefix that is not charged for, though the upstream's address
still leads to a media upstream with it. -/
def Unmetered (site : String → Option String) (base rest : String) : Prop :=
  rest.toList.head? ≠ some '/' ∧ ∃ host ∈ [imageHost, videoHost], site (base ++ rest) = some host

def Metered (site : String → Option String) (pq : String) : Prop :=
  ∀ rest, (stripPrefix "/images" pq = some rest → ¬ Unmetered site imageUpstream rest) ∧
    (stripPrefix "/videos" pq = some rest → ¬ Unmetered site videoUpstream rest)

theorem startsWith_iff {s start : String} : startsWith s start = true ↔ start.toList <+: s.toList := by
  rw [startsWith, List.isPrefixOf_iff_prefix]

theorem path_toList (r : Request) (uri : r.pathAndQuery = some pq) :
    r.path.toList = pq.toList.takeWhile (· != '?') := by
  rw [Request.path, uri]
  exact String.toList_ofList

/-- The path begins with a text without a question mark as soon as the whole does. -/
theorem path_startsWith {r : Request} {start : String} (uri : r.pathAndQuery = some pq)
    (plain : ∀ c ∈ start.toList, (c != '?') = true) : startsWith r.path start = true ↔ start.toList <+: pq.toList := by
  rw [startsWith_iff, path_toList r uri]
  constructor
  · exact fun begins => begins.trans (List.takeWhile_prefix _)
  · rintro ⟨rest, whole⟩
    rw [← whole, List.takeWhile_append_of_pos plain]
    exact List.prefix_append ..

theorem continues_iff {start : String} (stripped : stripPrefix start pq = some rest) :
    start.toList ++ ['/'] <+: pq.toList ↔ rest.toList.head? = some '/' := by
  rw [stripPrefix_eq_some.mp stripped, List.prefix_append_right_inj]
  cases rest.toList with
  | nil => simp
  | cons c more => simp [List.cons_prefix_cons, eq_comm]

theorem no_continuation {start : String} (foreign : stripPrefix start pq = none) : ¬ start.toList ++ ['/'] <+: pq.toList := by
  rintro ⟨rest, whole⟩
  have stripped : stripPrefix start pq = some (String.ofList ('/' :: rest)) := by
    rw [stripPrefix_eq_some, String.toList_ofList, ← whole, List.append_assoc]
    rfl
  cases foreign.symm.trans stripped

end Text

section Upstreams
variable {site : String → Option String} {r : Request} {pq rest : String}

theorem mediaKind_eq (uri : r.pathAndQuery = some pq) : mediaKind r.path =
    if "/images".toList ++ ['/'] <+: pq.toList then some .image
    else if "/videos".toList ++ ['/'] <+: pq.toList then some .video else none := by
  rw [mediaKind]
  have images := @path_startsWith pq r "/images/" uri (List.all_eq_true.mp (by decide))
  have videos := @path_startsWith pq r "/videos/" uri (List.all_eq_true.mp (by decide))
  simp only [images, videos]
  rfl

theorem mediaHost_eq {kind : ChargeKind} {host : String} : mediaHost kind = some host ↔
    kind = .image ∧ host = imageHost ∨ kind = .video ∧ host = videoHost := by
  cases kind <;> simp [mediaHost, eq_comm]

theorem reaches_of_site {target host : String} (found : site target = some host) (kind : ChargeKind) :
    Reaches site target kind ↔ mediaHost kind = some host := by
  rw [Reaches, found]
  constructor
  · rintro ⟨other, media, same⟩
    cases same
    exact media
  · exact fun media => ⟨host, media, rfl⟩

theorem reaches_media {target : String} :
    (∃ kind, Reaches site target kind) ↔ ∃ host ∈ [imageHost, videoHost], site target = some host := by
  simp [Reaches, mediaHost_eq, or_and_right, exists_or]

theorem upstream_site (fetches : Fetches site) {base host : String} (url : base = "https://" ++ host)
    (own : host ∈ upstreamHosts) (rooted : rest.toList.head? = some '/') : site (base ++ rest) = some host := by
  rw [url]
  exact fetches host own ⟨rest, rooted⟩

/-- The path decides the charge as the target does, unless what follows the media
prefix is not metered. -/
theorem media_agrees (fetches : Fetches site) {base host : String} {kind : ChargeKind} (url : base = "https://" ++ host)
    (listed : host ∈ upstreamHosts) (own : mediaHost kind = some host)
    (decided : mediaKind r.path = if rest.toList.head? = some '/' then some kind else none) :
    (∀ other, Reaches site (base ++ rest) other ↔ mediaKind r.path = some other) ↔ ¬ Unmetered site base rest := by
  rw [decided]
  by_cases closed : rest.toList.head? = some '/'
  · have metered : ¬ Unmetered site base rest := fun unmetered => unmetered.1 closed
    refine iff_of_true ?_ metered
    intro other
    rw [reaches_of_site (upstream_site fetches url listed closed), if_pos closed, Option.some.injEq, mediaHost_eq]
    rcases mediaHost_eq.mp own with ⟨rfl, rfl⟩ | ⟨rfl, rfl⟩
    · rw [and_iff_left rfl, or_iff_left fun video => absurd video.2 (by decide), eq_comm]
    · rw [and_iff_left rfl, or_iff_right fun image => absurd image.2 (by decide), eq_comm]
  · rw [Unmetered, and_iff_right closed, ← reaches_media, if_neg closed]
    simp

end Upstreams

section Agreement
variable {site : String → Option String} {st : State} {r : Request} {pq : String}

theorem chargeFor_get (get : r.method = .get) (req : ChargeReq) :
    chargeFor st r = some req ↔ req.path = r.path ∧ mediaKind r.path = some req.kind := by
  simp only [chargeFor, get, Option.map_eq_some_iff]
  constructor
  · rintro ⟨kind, media, rfl⟩
    exact ⟨rfl, media⟩
  · rintro ⟨path, media⟩
    exact ⟨req.kind, media, by rw [← path]⟩

theorem chargeFor_path {req : ChargeReq} (charged : chargeFor st r = some req) (get : r.method = .get) : req.path = r.path :=
  ((chargeFor_get get req).mp charged).1

theorem get_agrees (fetches : Fetches site) (pq : OriginForm) (uri : r.pathAndQuery = some pq.text) :
    (∀ kind, Reaches site (proxyTarget r.pathAndQuery) kind ↔ mediaKind r.path = some kind) ↔ Metered site pq.text := by
  rw [uri]
  cases images : stripPrefix "/images" pq.text with
  | some rest =>
    have videos : stripPrefix "/videos" pq.text = none := by
      cases videos : stripPrefix "/videos" pq.text with
      | none => rfl
      | some other => exact (media_exclusive images videos).elim
    have only : Metered site pq.text ↔ ¬ Unmetered site imageUpstream rest := by simp [Metered, images, videos]
    rw [proxyTarget_images images, only]
    apply @media_agrees site r rest fetches _ _ .image imageUpstream_eq (by decide) rfl
    rw [mediaKind_eq uri, if_neg (no_continuation videos)]
    simp only [continues_iff images]
  | none =>
    cases videos : stripPrefix "/videos" pq.text with
    | some rest =>
      have only : Metered site pq.text ↔ ¬ Unmetered site videoUpstream rest := by simp [Metered, images, videos]
      rw [proxyTarget_videos videos, only]
      apply @media_agrees site r rest fetches _ _ .video videoUpstream_eq (by decide) rfl
      rw [mediaKind_eq uri, if_neg (no_continuation images)]
      simp only [continues_iff videos]
    | none =>
      rw [proxyTarget_api images videos]
      refine iff_of_true ?_ (by simp [Metered, images, videos])
      intro kind
      rw [reaches_of_site (upstream_site fetches apiUpstream_eq (by decide) pq.rooted), mediaKind_eq uri,
        if_neg (no_continuation images), if_neg (no_continuation videos)]
      cases kind <;> decide

theorem user_metered (uri : r.pathAndQuery = some pq) (user : r.path = "/user" ∨ startsWith r.path "/user/" = true) :
    Metered site pq := by
  have begins : "/user".toList <+: r.path.toList := by
    rcases user with same | longer
    · exact ⟨[], (List.append_nil _).trans (congrArg String.toList same.symm)⟩
    · have inner : "/user".toList <+: "/user/".toList := by decide
      exact inner.trans (startsWith_iff.mp longer)
  have foreign {start : String} (media : start = "/images" ∨ start = "/videos") (rest : String) :
      stripPrefix start pq ≠ some rest := by
    intro stripped
    have plain : ∀ c ∈ start.toList, (c != '?') = true :=
      List.all_eq_true.mp (by rcases media with rfl | rfl <;> decide)
    have starts : start.toList <+: r.path.toList := by
      rw [← startsWith_iff, path_startsWith uri plain, stripPrefix_eq_some.mp stripped]
      exact List.prefix_append ..
    have short : "/user".toList.length ≤ start.toList.length := by rcases media with rfl | rfl <;> decide
    have nested := List.prefix_of_prefix_length_le begins starts short
    rcases media with rfl | rfl
    · exact absurd nested (by decide)
    · exact absurd nested (by decide)
  exact fun rest => ⟨fun images => absurd images (foreign (.inl rfl) rest), fun videos => absurd videos (foreign (.inr rfl) rest)⟩

theorem formField_isSome {body : List UInt8} {field : String} (plain : '=' ∉ field.toList) :
    (formField body field).isSome = true ↔ Readable field body := by
  rw [formField, List.isSome_findSome?, List.any_eq_true, Readable]
  constructor
  · rintro ⟨pair, member, found⟩
    split at found
    next k v halves =>
      split at found
      next same =>
        have spelled : pair = field ++ "=" ++ v := by
          rw [← String.toList_inj, (splitOnce_eq_some.mp halves).1, same, String.toList_append, String.toList_append,
            List.append_assoc]
          rfl
        exact ⟨v, spelled ▸ member⟩
      · cases found
    · cases found
  · rintro ⟨value, member⟩
    have halves : splitOnce '=' (field ++ "=" ++ value) = some (field, value) := by
      refine splitOnce_eq_some.mpr ⟨?_, plain⟩
      rw [String.toList_append, String.toList_append, List.append_assoc]
      rfl
    exact ⟨_, member, by simp [halves]⟩

/-- The search that is charged for is the one of the table. -/
theorem searchCharge_kind {path : String} {body : List UInt8} {kind : ChargeKind} :
    (searchCharge st path body).map (·.2) = some kind ↔ ∃ field, (path, field, kind) ∈ searches ∧ Readable field body := by
  have read {field : String} (plain : '=' ∉ field.toList) (key : String → String) (own : ChargeKind) :
      ((formField body field).map fun v => (key v, own)).map (·.2) = some kind ↔ kind = own ∧ Readable field body := by
    rw [← formField_isSome plain, Option.map_map]
    cases formField body field with
    | none => simp
    | some v => simp [eq_comm]
  rw [searchCharge]
  split
  next similar =>
    rw [read (by decide) (fun q => "search:sim:" ++ q)]
    simp [searches, similar]
  · split
    next image =>
      rw [read (by decide) fun img => "search:img:" ++ String.ofList ((st.sha256Hex img).toList.take 32)]
      simp [searches, image]
    · split
      next desc =>
        rw [read (by decide) fun q => "search:desc:" ++ q]
        simp [searches, desc]
      · simp_all [searches]

/-- What is owed is what is charged, but for GETs that slip past the metering. -/
theorem owes_iff (fetches : Fetches site) (pq : OriginForm) (uri : r.pathAndQuery = some pq.text) :
    (∀ kind, Owes site r (proxyTarget r.pathAndQuery) kind ↔ (chargeFor st r).map (·.kind) = some kind) ↔
      (r.method = .get → Metered site pq.text) := by
  cases method : r.method with
  | get =>
    rw [← get_agrees fetches pq uri]
    simp [Owes, chargeFor, method]
  | post =>
    refine iff_of_true ?_ (by simp)
    intro kind
    simp only [Owes, chargeFor, method, Option.map_map]
    exact searchCharge_kind.symm
  | head => exact iff_of_true (by simp [Owes, chargeFor, method]) (by simp)
  | other name => exact iff_of_true (by simp [Owes, chargeFor, method]) (by simp)

end Agreement

section Keys
variable {st : State} {r : Request}

/-- A charge key tells its kind. -/
def kindOf (key : String) : Option ChargeKind :=
  if startsWith key "/images/" then some .image
  else if startsWith key "/videos/" then some .video
  else if startsWith key "search:sim:" then some .embedSearch
  else if startsWith key "search:" then some .search
  else none

theorem startsWith_append (start rest : String) : startsWith (start ++ rest) start = true := by
  rw [startsWith_iff, String.toList_append]
  exact List.prefix_append ..

theorem not_startsWith_append {start other : String} (rest : String) (short : start.toList.length ≤ other.toList.length)
    (different : ¬ start.toList <+: other.toList) : startsWith (other ++ rest) start = false := by
  rw [Bool.eq_false_iff]
  intro begins
  rw [startsWith_iff, String.toList_append] at begins
  exact different (List.prefix_of_prefix_length_le begins (List.prefix_append ..) short)

theorem kindOf_search {name : String} (rest : String) (search : "search:".toList <+: name.toList) :
    kindOf (name ++ rest) = if startsWith (name ++ rest) "search:sim:" then some .embedSearch else some .search := by
  have start : startsWith (name ++ rest) "search:" = true := by
    rw [startsWith_iff, String.toList_append]
    exact search.trans (List.prefix_append ..)
  have foreign (other : String) (head : other.toList.head? = some '/') : startsWith (name ++ rest) other = false := by
    rw [Bool.eq_false_iff]
    intro begins
    rw [startsWith_iff] at begins start
    obtain ⟨more, whole⟩ := begins
    obtain ⟨more', whole'⟩ := start
    have heads := congrArg List.head? (whole.trans whole'.symm)
    rw [List.head?_append, head] at heads
    cases heads
  rw [kindOf, foreign "/images/" rfl, foreign "/videos/" rfl, start]
  rfl

theorem searchCharge_kindOf {path key : String} {body : List UInt8} {kind : ChargeKind}
    (read : searchCharge st path body = some (key, kind)) : kindOf key = some kind := by
  rw [searchCharge] at read
  split at read
  · obtain ⟨q, _, same⟩ := Option.map_eq_some_iff.mp read
    cases same
    rw [kindOf_search q (by decide), startsWith_append]
    rfl
  · split at read
    · obtain ⟨img, _, same⟩ := Option.map_eq_some_iff.mp read
      cases same
      rw [kindOf_search _ (by decide), not_startsWith_append _ (by decide) (by decide)]
      rfl
    · split at read
      · obtain ⟨q, _, same⟩ := Option.map_eq_some_iff.mp read
        cases same
        rw [kindOf_search q (by decide), not_startsWith_append q (by decide) (by decide)]
        rfl
      · cases read

theorem mediaKind_kindOf {path : String} {kind : ChargeKind} (media : mediaKind path = some kind) :
    kindOf path = some kind := by
  rw [mediaKind] at media
  rw [kindOf]
  split at media
  next images => rw [if_pos images, media]
  next images =>
    split at media
    next videos => rw [if_neg images, if_pos videos, media]
    · cases media

theorem chargeFor_kindOf {req : ChargeReq} (charged : chargeFor st r = some req) : kindOf req.path = some req.kind := by
  rw [chargeFor] at charged
  cases method : r.method with
  | get =>
    simp only [method, Option.map_eq_some_iff] at charged
    obtain ⟨kind, media, rfl⟩ := charged
    exact mediaKind_kindOf media
  | post =>
    simp only [method, Option.map_eq_some_iff] at charged
    obtain ⟨charge, read, rfl⟩ := charged
    exact searchCharge_kindOf read
  | head => simp [method] at charged
  | other name => simp [method] at charged

/-- Whatever comes back, only `chargeFor` is ever charged. -/
theorem gateway_charges (st : State) (r : Request) :
    (gateway st r).wp (Program.recording fun _ command => ∀ sub req, command = .charge sub req → chargeFor st r = some req)
      (fun _ _ => True) (fun _ _ => True) [] := by
  rw [gateway_rule (fun _ _ _ same => by cases same) fun _ _ _ _ same => by cases same]
  refine .inr fun token _ now claims _ => ⟨fun _ _ _ same => (by cases same), fun req charged => ⟨?_, ?_⟩⟩
  · intro sub other same
    cases same
    exact charged
  · intro _ _ same
    cases same

/-- The charges of a run, with the services answering in any way whatever. -/
def charged (st : State) (r : Request) (oracle : History → (command : Command) → command.Reply) :
    List (ChargeReq × Option Nat) :=
  charges ((gateway st r).run.run (Program.converse oracle) []).2

theorem charged_chargeFor {oracle : History → (command : Command) → command.Reply} {charge : ChargeReq × Option Nat}
    (member : charge ∈ charged st r oracle) : chargeFor st r = some charge.1 := by
  obtain ⟨⟨command, reply⟩, happened, same⟩ := List.mem_filterMap.mp member
  obtain ⟨later, earlier, split⟩ := List.append_of_mem happened
  have asked := Handler.asked_of_wp (gateway_charges st r) oracle split
  cases command with
  | charge sub req =>
    cases same
    exact asked sub req rfl
  | _ => cases same

end Keys

/-- In every run of an authenticated request charging and forwarding agree, if and
only if a GET does not reach a media upstream past the metering; and charges with
one key are of one kind, whichever requests they are for. -/
theorem metering_agrees_iff {site : String → Option String} (fetches : Fetches site) (st : State) (r : Request)
    (pq : OriginForm) (uri : r.pathAndQuery = some pq.text)
    {token : String} {now : Nat} {claims : SessionClaims} (cookie : r.cookies sessionCookie = some token)
    (verified : st.jwtVerify token now = some claims) :
    ((gateway st r).wp (Program.recording (Agreed site r)) (fun _ _ => True) (fun _ _ => True) [] ↔
      (r.method = .get → Metered site pq.text)) ∧
    ∀ (other : Request) (oracle oracle' : History → (command : Command) → command.Reply),
      ∀ charge ∈ charged st r oracle, ∀ charge' ∈ charged st other oracle',
        charge.1.path = charge'.1.path → charge.1.kind = charge'.1.kind := by
  constructor
  · rw [← @owes_iff site st r fetches pq uri, gateway_rule (fun _ => trivial) fun _ _ => trivial]
    have settled (now : Nat) (claims : SessionClaims) :
        ((chargeFor st r = none → Agreed site r [⟨.now, now⟩] (.send (outgoing st r))) ∧
          ∀ req, chargeFor st r = some req → Agreed site r [⟨.now, now⟩] (.charge claims.sub req) ∧
            Agreed site r [⟨.charge claims.sub req, some 200⟩, ⟨.now, now⟩] (.send (outgoing st r))) ↔
          ∀ kind, Owes site r (proxyTarget r.pathAndQuery) kind ↔ (chargeFor st r).map (·.kind) = some kind := by
      have target : (outgoing st r).target = proxyTarget r.pathAndQuery := rfl
      have path := @chargeFor_path st r
      cases charge : chargeFor st r with
      | none => simp [Agreed, charges, target]
      | some req =>
        have own := path charge
        simp only [Agreed, charges, target, List.filterMap_cons, List.filterMap_nil, reduceCtorEq, Option.some.injEq,
          forall_eq', false_implies, true_and, List.mem_singleton, forall_eq, and_true, Option.map_some]
        constructor
        · rintro ⟨⟨owed, _⟩, only⟩ kind
          constructor
          · intro owes
            obtain ⟨key, same, _⟩ := only kind owes
            cases same
            rfl
          · rintro rfl
            exact owed
        · intro agrees
          refine ⟨⟨(agrees req.kind).mpr rfl, own⟩, fun kind owes => ⟨req.path, ?_, own⟩⟩
          rw [← (agrees kind).mp owes]
    constructor
    · rintro (user | agrees)
      · exact (owes_iff fetches pq uri).mpr fun _ => user_metered uri user
      · exact (settled now claims).mp (agrees token cookie now claims verified)
    · exact fun agrees => .inr fun _ _ now claims _ => (settled now claims).mpr agrees
  · intro other oracle oracle' charge member charge' member' same
    have kind := chargeFor_kindOf (charged_chargeFor member)
    rw [same, chargeFor_kindOf (charged_chargeFor member')] at kind
    exact (Option.some.inj kind).symm

section Example

/-- The host of an https URL in plain characters: up to the first slash, backslash,
question mark or number sign, past the userinfo, in lower case, without the scheme's port. -/
def plainSite (url : String) : Option String := do
  let rest ← stripPrefix "https://" url
  let authority := dropUserinfo (rest.toList.takeWhile fun c => inside c && c != '\\')
  let port := authority.dropWhile (· != ':')
  let host := if port = [] ∨ port = [':'] ∨ port = ":443".toList then authority.takeWhile (· != ':') else authority
  if host = [] then none else some (String.ofList (host.map Char.toLower))

theorem plainSite_fetches : Fetches plainSite := by
  intro host own path
  have listed : host = apiHost ∨ host = imageHost ∨ host = videoHost := by simpa [upstreamHosts] using own
  have stripped : stripPrefix "https://" ("https://" ++ host ++ path.text) = some (host ++ path.text) := by
    rw [stripPrefix_eq_some, String.toList_append, String.toList_append, String.toList_append, List.append_assoc]
  have clean : ∀ c ∈ host.toList, (inside c && c != '\\') = true :=
    List.all_eq_true.mp (by rcases listed with rfl | rfl | rfl <;> decide)
  have ends : path.text.toList.takeWhile (fun c => inside c && c != '\\') = [] := by
    have rooted := path.rooted
    cases chars : path.text.toList with
    | nil => rfl
    | cons c more =>
      rw [chars] at rooted
      cases rooted
      rfl
  rw [plainSite, stripped]
  simp only [Option.bind_eq_bind, Option.bind_some]
  rw [String.toList_append, List.takeWhile_append_of_pos clean, ends, List.append_nil]
  rcases listed with rfl | rfl | rfl <;> decide

theorem sampleGet_slips {pathAndQuery : String}
    (host : plainSite (outgoing sampleState (sampleGet pathAndQuery)).target = some imageHost)
    (uncharged : chargeFor sampleState (sampleGet pathAndQuery) = none)
    (outside : ¬ ((sampleGet pathAndQuery).path = "/user" ∨ startsWith (sampleGet pathAndQuery).path "/user/" = true)) :
    ¬ (gateway sampleState (sampleGet pathAndQuery)).wp (Program.recording (Agreed plainSite (sampleGet pathAndQuery)))
      (fun _ _ => True) (fun _ _ => True) [] := by
  intro agrees
  rcases (gateway_rule (fun _ => trivial) fun _ _ => trivial).mp agrees with user | agrees
  · exact outside user
  · have sends := (agrees sampleToken (sampleGet_cookie _) 1000 sampleClaims sampleToken_verified).1 uncharged
    obtain ⟨key, same, _⟩ := sends.1 .image ⟨imageHost, rfl, host⟩
    cases same

/-- The image upstream reached past its own name, which is replaced by itself, and
under the port that is its own anyway: nothing is charged. -/
theorem image_uncharged :
    (let r := sampleGet "/images@lets-embed-image.louisfly.icu/cats/1.webp"
     plainSite (outgoing sampleState r).target = some imageHost ∧
      ¬ (gateway sampleState r).wp (Program.recording (Agreed plainSite r)) (fun _ _ => True) (fun _ _ => True) []) ∧
    (let r := sampleGet "/images:443/cats/1.webp"
     plainSite (outgoing sampleState r).target = some imageHost ∧
      ¬ (gateway sampleState r).wp (Program.recording (Agreed plainSite r)) (fun _ _ => True) (fun _ _ => True) []) := by
  have named : plainSite (outgoing sampleState (sampleGet "/images@lets-embed-image.louisfly.icu/cats/1.webp")).target =
      some imageHost := by decide
  have ported : plainSite (outgoing sampleState (sampleGet "/images:443/cats/1.webp")).target = some imageHost := by decide
  exact ⟨⟨named, sampleGet_slips named (by decide) (by decide)⟩, ⟨ported, sampleGet_slips ported (by decide) (by decide)⟩⟩

theorem metering_agrees_iff_media :
    let r := sampleGet "/images/a@b.webp?w=100"
    (gateway sampleState r).wp (Program.recording (Agreed plainSite r)) (fun _ _ => True) (fun _ _ => True) [] := by
  intro r
  refine (metering_agrees_iff plainSite_fetches sampleState r ⟨"/images/a@b.webp?w=100", by decide⟩ rfl (sampleGet_cookie _)
    sampleToken_verified).1.mpr fun _ rest => ⟨fun images unmetered => unmetered.1 ?_, fun videos => ?_⟩
  · have stripped : stripPrefix "/images" "/images/a@b.webp?w=100" = some "/a@b.webp?w=100" := by decide
    cases stripped.symm.trans images
    decide
  · have foreign : stripPrefix "/videos" "/images/a@b.webp?w=100" = none := by decide
    cases foreign.symm.trans videos

end Example

end LetsEmbed.Gateway
