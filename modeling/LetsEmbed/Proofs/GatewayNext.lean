import LetsEmbed.Proofs.GatewayForm
import LetsEmbed.Proofs.GatewayMetering

/-! The way to the login page and back. The gateway escapes what would end the query
parameter or start an escape, and leaves plus signs, which the page reads as spaces. -/

namespace LetsEmbed.Gateway
open Account Text Systems

/-- `location.search`, from the question mark up to a fragment. -/
def searchOf (location : String) : String :=
  String.ofList ((location.toList.takeWhile (· != '#')).dropWhile (· != '?'))

/-- `new URLSearchParams(search).get(key)` -/
def searchParam (search key : String) : Option String := standardField (bytes ((stripPrefix "?" search).getD search)) key

def loginLocation (next : String) : String := "/user/login?next=" ++ encodeNext next

def plusRead (c : Char) : Char := if c = '+' then ' ' else c

/-- Whoever is redirected goes to the login page, with the path and query as they were asked for. -/
def Redirects (r : Request) (answer : Answer) : Prop :=
  ∀ location, answer = .redirect location → location = loginLocation (r.pathAndQuery.getD "/")

section Redirect
variable {st : State} {r : Request} {past : History}

theorem not_redirect {answer : Answer} (other : ∀ location, answer ≠ .redirect location) : Redirects r answer :=
  fun location same => (other location same).elim

theorem proxy_redirects : (proxy st r).wp (Program.recording fun _ _ => True) (fun _ answer => Redirects r answer)
    (fun _ answer => Redirects r answer) past := by
  apply Handler.wp_ask trivial
  intro reply
  cases reply <;> exact (Handler.wp_pure _).mpr (not_redirect (by simp))

theorem chargeOrAnswer_redirects {sub key : String} {kind : ChargeKind} {refused : Answer}
    (page : ∀ location, refused ≠ .redirect location) :
    (chargeOrAnswer sub key kind refused).wp (Program.recording fun _ _ => True) (fun _ _ => True)
      (fun _ answer => Redirects r answer) past := by
  apply Handler.wp_ask trivial
  intro reply
  split
  · exact (Handler.wp_pure ()).mpr trivial
  · exact (Handler.wp_throw _).mpr (not_redirect page)
  all_goals exact (Handler.wp_throw _).mpr (not_redirect (by simp))

theorem meter_redirects {sub : String} : (meter st r sub).wp (Program.recording fun _ _ => True) (fun _ _ => True)
    (fun _ answer => Redirects r answer) past := by
  rw [meter]
  cases r.method with
  | get =>
    cases mediaKind r.path with
    | none => exact (Handler.wp_pure ()).mpr trivial
    | some kind => exact chargeOrAnswer_redirects (by simp [outOfPoints])
  | post =>
    cases searchCharge st r.path r.body with
    | none => exact (Handler.wp_pure ()).mpr trivial
    | some charge => exact chargeOrAnswer_redirects (by simp)
  | head => exact (Handler.wp_pure ()).mpr trivial
  | other name => exact (Handler.wp_pure ()).mpr trivial

theorem gateway_redirects (st : State) (r : Request) : (gateway st r).wp (Program.recording fun _ _ => True)
    (fun _ answer => Redirects r answer) (fun _ answer => Redirects r answer) [] := by
  have anonymous (past : History) : (show Handler Answer from
      if isMediaPath r.path && (r.method = .get || r.method = .head) then pure (.text 401 "unauthorized")
      else pure (.redirect (loginLocation (r.pathAndQuery.getD "/")))).wp (Program.recording fun _ _ => True)
        (fun _ answer => Redirects r answer) (fun _ answer => Redirects r answer) past := by
    split
    · exact (Handler.wp_pure _).mpr (not_redirect (by simp))
    · exact (Handler.wp_pure _).mpr fun _ same => (Answer.redirect.inj same).symm
  rw [gateway]
  split
  · apply Handler.wp_ask trivial
    intro reply
    cases reply <;> exact (Handler.wp_pure _).mpr (not_redirect (by simp))
  · rw [Handler.wp_bind, session]
    cases r.cookies sessionCookie with
    | none => exact (Handler.wp_pure _).mpr (anonymous _)
    | some token =>
      apply Handler.wp_ask trivial
      intro now
      rw [Handler.wp_pure]
      cases st.jwtVerify token now with
      | none => exact anonymous _
      | some claims =>
        dsimp only
        rw [Handler.wp_bind]
        exact Handler.wp_mono meter_redirects (fun _ _ _ => proxy_redirects) fun _ _ page => page

end Redirect

variable {s : String} {c : Char} {chars : List Char}

section Decoding

def decoded (text : String) : List UInt8 := unescape ((bytes text).map plusToSpace)

theorem bytes_ofList (chars : List Char) : bytes (String.ofList chars) = chars.flatMap String.utf8EncodeChar := by
  rw [bytes, String.toList_ofList]

theorem bytes_append (first rest : String) : bytes (first ++ rest) = bytes first ++ bytes rest := by
  rw [bytes, String.toList_append, List.flatMap_append, ← bytes, ← bytes]

theorem unescape_append {raw rest : List UInt8} (plain : 0x25 ∉ raw) : unescape (raw ++ rest) = raw ++ unescape rest := by
  induction raw with
  | nil => rfl
  | cons b raw ih =>
    rw [List.mem_cons, not_or] at plain
    rw [List.cons_append, unescape_plain fun _ _ _ escape => (plain.1 escape.symm).elim, ih plain.2]
    rfl

/-- Only the plus sign has a byte that turns into a space. -/
theorem encodeChar_plusToSpace (c : Char) :
    (String.utf8EncodeChar c).map plusToSpace = String.utf8EncodeChar (plusRead c) := by
  unfold plusRead
  split
  next plus =>
    rw [plus]
    decide
  next other =>
    have kept : ∀ b ∈ String.utf8EncodeChar c, plusToSpace b = b := by
      intro b member
      apply if_neg
      intro plus
      rw [plus] at member
      exact other (eq_of_mem_encodeChar (by decide) member)
    rw [List.map_congr_left kept, List.map_id']

theorem encodeNext_cons : decoded (encodeNext (String.ofList (c :: chars))) =
    String.utf8EncodeChar (plusRead c) ++ decoded (encodeNext (String.ofList chars)) := by
  rw [decoded, decoded, encodeNext, encodeNext, bytes_ofList, bytes_ofList, String.toList_ofList, String.toList_ofList,
    List.flatMap_cons, List.flatMap_append, List.map_append]
  split
  next => exact @unescape_escape 0x32 0x35 2 5 _ (by decide) (by decide)
  next => exact @unescape_escape 0x33 0x46 3 15 _ (by decide) (by decide)
  next => exact @unescape_escape 0x32 0x33 2 3 _ (by decide) (by decide)
  next => exact @unescape_escape 0x32 0x36 2 6 _ (by decide) (by decide)
  next percent _ _ _ =>
    rw [List.flatMap_singleton, encodeChar_plusToSpace]
    apply unescape_append
    intro member
    have escape := eq_of_mem_encodeChar (by decide) member
    unfold plusRead at escape
    split at escape
    · cases escape
    · exact percent escape

theorem decoded_encodeNext (s : String) : decoded (encodeNext s) = bytes (String.ofList (s.toList.map plusRead)) := by
  have general (chars : List Char) :
      decoded (encodeNext (String.ofList chars)) = (chars.map plusRead).flatMap String.utf8EncodeChar := by
    induction chars with
    | nil => decide
    | cons c chars ih => rw [encodeNext_cons, ih, List.map_cons, List.flatMap_cons]
  have whole := general s.toList
  rw [String.ofList_toList] at whole
  rw [whole, bytes_ofList]

end Decoding

section Splitting

/-- Nothing in it ends the parameter or the query. -/
theorem encodeNext_clean : ∀ c ∈ (encodeNext s).toList, c ≠ '#' ∧ c ≠ '&' := by
  rw [encodeNext, String.toList_ofList]
  intro c member
  obtain ⟨d, _, inside⟩ := List.mem_flatMap.mp member
  split at inside
  next => exact (show ∀ c ∈ ['%', '2', '5'], c ≠ '#' ∧ c ≠ '&' by simp) c inside
  next => exact (show ∀ c ∈ ['%', '3', 'F'], c ≠ '#' ∧ c ≠ '&' by simp) c inside
  next => exact (show ∀ c ∈ ['%', '2', '3'], c ≠ '#' ∧ c ≠ '&' by simp) c inside
  next => exact (show ∀ c ∈ ['%', '2', '6'], c ≠ '#' ∧ c ≠ '&' by simp) c inside
  next _ _ fragment separator =>
    rw [List.mem_singleton.mp inside]
    exact ⟨fragment, separator⟩

theorem toList_loginLocation : (loginLocation s).toList = "/user/login?next=".toList ++ (encodeNext s).toList :=
  String.toList_append

theorem searchOf_loginLocation : searchOf (loginLocation s) = "?next=" ++ encodeNext s := by
  have whole : ∀ c ∈ (loginLocation s).toList, (c != '#') = true := by
    intro c member
    rw [toList_loginLocation, List.mem_append] at member
    rw [bne_iff_ne]
    cases member with
    | inl own =>
      intro fragment
      rw [fragment] at own
      exact absurd own (by decide +kernel)
    | inr next => exact (encodeNext_clean c next).1
  have path : (loginLocation s).toList = "/user/login".toList ++ ("?next=" ++ encodeNext s).toList := by
    have parts : "/user/login?next=".toList = "/user/login".toList ++ "?next=".toList := by decide +kernel
    rw [toList_loginLocation, parts, List.append_assoc, ← String.toList_append]
  have page : "/user/login".toList.all (· != '?') = true := by decide +kernel
  rw [searchOf, List.takeWhile_eq_self_iff.mpr whole, path, List.dropWhile_append_of_pos (List.all_eq_true.mp page)]
  rw [← String.toList_inj, String.toList_ofList, String.toList_append]
  rfl

theorem searchParam_next : searchParam ("?next=" ++ encodeNext s) "next" = some (standardText (bytes (encodeNext s))) := by
  have rest : stripPrefix "?" ("?next=" ++ encodeNext s) = some ("next=" ++ encodeNext s) := by
    have parts : "?next=" = "?" ++ "next=" := by decide +kernel
    rw [stripPrefix_eq_some, parts, String.append_assoc]
    exact String.toList_append
  have query : bytes ("next=" ++ encodeNext s) = bytes "next" ++ 0x3D :: bytes (encodeNext s) := by
    have parts : bytes "next=" = bytes "next" ++ [0x3D] := by decide +kernel
    rw [bytes_append, parts, List.append_assoc, List.singleton_append]
  have single : pairs (bytes "next" ++ 0x3D :: bytes (encodeNext s)) = [bytes "next" ++ 0x3D :: bytes (encodeNext s)] := by
    apply List.splitOn_eq_singleton
    rw [List.mem_append, List.mem_cons, not_or, not_or]
    refine ⟨by decide +kernel, by decide, fun member => ?_⟩
    obtain ⟨c, inside, coded⟩ := List.mem_flatMap.mp member
    exact (encodeNext_clean c inside).2 (eq_of_mem_encodeChar (by decide) coded)
  obtain ⟨name, value⟩ := @nameOf_append (bytes "next") (bytes (encodeNext s)) (by decide +kernel)
  have named : standardText (bytes "next") = "next" := by decide +kernel
  rw [searchParam, rest, Option.getD_some, query, standardField, single]
  simp [name, value, named]

end Splitting

theorem map_plusRead : chars.map plusRead = chars ↔ '+' ∉ chars := by
  have pointwise := @List.map_inj_left _ _ chars plusRead id
  rw [List.map_id] at pointwise
  rw [pointwise]
  constructor
  · intro same member
    cases same _ member
  · intro clean c member
    apply if_neg
    intro plus
    exact clean (plus ▸ member)

/-- Whoever the gateway redirects is sent to the login page with the path and query that
were asked for, and the page reads these back if and only if they hold no plus sign. -/
theorem next_restored_iff (s : String) :
    (searchParam (searchOf (loginLocation s)) "next" = some s ↔ '+' ∉ s.toList) ∧
      ∀ st r, (gateway st r).wp (Program.recording fun _ _ => True) (fun _ answer => Redirects r answer)
        (fun _ answer => Redirects r answer) [] := by
  refine ⟨?_, gateway_redirects⟩
  have read : standardText (bytes (encodeNext s)) = String.ofList (s.toList.map plusRead) := by
    rw [standardText, ← fromUtf8Lossy_bytes (String.ofList (s.toList.map plusRead)), ← decoded_encodeNext]
    rfl
  rw [searchOf_loginLocation, searchParam_next, read, Option.some.injEq, ← map_plusRead, ← String.toList_inj,
    String.toList_ofList]

theorem next_spaced : searchParam (searchOf (loginLocation "/search?q=a+b")) "next" = some "/search?q=a b" ∧
    searchParam (searchOf (loginLocation "/search?q=a+b")) "next" ≠ some "/search?q=a+b" := by
  decide +kernel

end LetsEmbed.Gateway
