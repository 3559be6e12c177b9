import Mathlib.Data.List.TakeWhile
import LetsEmbed.Gateway
import LetsEmbed.Pages
import LetsEmbed.Proofs.AccountDedupe
import LetsEmbed.Search

/-! One image, two front ends. Views are charged by the raw path of the request, so
an image is charged once only where the two encoders spell its name alike. -/

namespace LetsEmbed.Pages
open Text Systems Search Gateway

/-- What one encoder leaves as it is and the other escapes. -/
def isTellTale (c : Char) : Bool := "/!*'()".toList.contains c

theorem encodePath_toList (path : String) :
    (encodePath path).toList = Percent.encode (fun c => isUnreserved c || c == '/') path.toList := by
  rw [encodePath, String.toList_intercalate, ← Percent.encode_pieces, split, List.map_map, List.map_map]
  congr 1
  apply List.map_congr_left
  intro piece _
  simp [urlencode]

theorem agree_iff (c : Char) : isUriMark c = (isUnreserved c || c == '/') ↔ isTellTale c = false := by
  cases telling : isTellTale c with
  | true =>
    have member : c ∈ ['/', '!', '*', '\'', '(', ')'] := by simpa [isTellTale] using telling
    simp only [List.mem_cons, List.not_mem_nil, or_false] at member
    rcases member with rfl | rfl | rfl | rfl | rfl | rfl <;> decide
  | false =>
    have plain : c ∉ ['/', '!', '*', '\'', '(', ')'] := by
      intro member
      simp [isTellTale, member] at telling
    simp only [List.mem_cons, List.not_mem_nil, or_false, not_or] at plain
    obtain ⟨slash, bang, star, quote, left, right⟩ := plain
    simp [isUriMark, isUnreserved, slash, bang, star, quote, left, right]

theorem previewSrc_eq_imageSrc {name : String} :
    previewSrc name = imageSrc name ↔ ∀ c ∈ name.toList, isTellTale c = false := by
  have strict : isUriMark '%' = false := by decide
  have strict' : (isUnreserved '%' || '%' == '/') = false := by decide
  simp only [← agree_iff]
  rw [← @Percent.encode_eq_iff isUriMark (fun c => isUnreserved c || c == '/') _ strict strict', ← encodePath_toList,
    ← String.toList_inj, previewSrc, imageSrc]
  simp [encodeURIComponent]

theorem media_path {r : Request} {safe : Char → Bool} {name src : String} (strict : safe '?' = false)
    (whole : src.toList = "/images/".toList ++ (Percent.encode safe name.toList ++ ".webp".toList))
    (asks : r.pathAndQuery = some src) : r.path = src ∧ mediaKind src = some .image := by
  constructor
  · have plain : ∀ c ∈ src.toList, (c != '?') = true := by
      intro c member
      rw [whole, List.mem_append, List.mem_append] at member
      rw [bne_iff_ne]
      rintro rfl
      rcases member with member | member | member
      · exact absurd member (by decide)
      · rcases Percent.mem_encode member with kept | same | ⟨n, small, same⟩
        · exact Bool.false_ne_true (strict.symm.trans kept)
        · exact absurd same (by decide)
        · exact absurd same ((by decide : ∀ n < 16, '?' ≠ Percent.hexDigit n) n small)
      · exact absurd member (by decide)
    rw [Request.path, asks]
    exact (congrArg String.ofList (List.takeWhile_eq_self_iff.mpr plain)).trans String.ofList_toList
  · rw [mediaKind, startsWith, whole]
    rfl

theorem meter_media {r : Request} {src sub : String} {st : State} (gets : r.method = .get) (path : r.path = src)
    (media : mediaKind src = some .image) : meter st r sub = chargeOrAnswer sub src .image outOfPoints := by
  rw [meter, gets, path, media]

theorem meter_image {r : Request} {name sub : String} {st : State} (gets : r.method = .get)
    (asks : r.pathAndQuery = some (imageSrc name)) :
    meter st r sub = chargeOrAnswer sub (imageSrc name) .image outOfPoints := by
  have whole : (imageSrc name).toList =
      "/images/".toList ++ (Percent.encode (fun c => isUnreserved c || c == '/') name.toList ++ ".webp".toList) := by
    rw [imageSrc, String.toList_append, String.toList_append, encodePath_toList, List.append_assoc]
  obtain ⟨path, media⟩ := media_path (by decide) whole asks
  exact meter_media gets path media

/-- The image is charged once: both front ends request one path, the gateway charges
both views under it, and whichever view was charged makes the other free for a day. -/
structure ChargedOnce (name : String) : Prop where
  path : previewSrc name = imageSrc name
  key : ∀ src ∈ [previewSrc name, imageSrc name], ∀ (st : State) (sub : String) (r : Request), r.method = .get →
    r.pathAndQuery = some src → meter st r sub = chargeOrAnswer sub (imageSrc name) .image outOfPoints
  free : ∀ first ∈ [previewSrc name, imageSrc name], ∀ second ∈ [previewSrc name, imageSrc name],
    ∀ {past : List Account.Event} {s : Account.Storage} {now : Nat} {kind : Account.ChargeKind},
      Account.account.Run Account.Ordered {} past s → (∀ e ∈ past, e.input.now ≤ now) → Config.dedupeWindowSecs ≤ now →
      s.isBanned = false → (∃ e ∈ past, Account.ChargedFor first e ∧ now - e.input.now < Config.dedupeWindowSecs) →
      ∃ resp, (Account.charge s now ⟨second, kind⟩).1 = .charge 200 resp ∧ resp.charged = false

/-- It is for exactly the names that both encoders spell alike. -/
theorem charged_once_iff (name : String) : ChargedOnce name ↔ ∀ c ∈ name.toList, isTellTale c = false := by
  rw [← previewSrc_eq_imageSrc]
  refine ⟨ChargedOnce.path, fun same => ⟨same, ?_, ?_⟩⟩
  · intro src member st sub r gets asks
    simp only [same, List.mem_cons, List.not_mem_nil, or_false, or_self] at member
    rw [member] at asks
    exact meter_image gets asks
  · intro first member second member' past s now kind run later full served viewed
    simp only [same, List.mem_cons, List.not_mem_nil, or_false, or_self] at member member'
    subst member member'
    exact (Account.charge_deduped_iff served).mpr ((Account.seenRecently_iff_charged run later full).mpr viewed)

/-- An image of a post, looked at in the search and a second later among the favorites. -/
theorem slashed_image_charged_twice :
    imageSrc "post/1" = "/images/post/1.webp" ∧ previewSrc "post/1" = "/images/post%2F1.webp" ∧
      ∀ e ∈ (Account.account.play ([], {}) [⟨864_000, .charge ⟨imageSrc "post/1", .image⟩⟩,
        ⟨864_001, .charge ⟨previewSrc "post/1", .image⟩⟩]).1, e.output.charged = true := by
  have image : imageSrc "post/1" = "/images/post/1.webp" := by decide +kernel
  have preview : previewSrc "post/1" = "/images/post%2F1.webp" := by decide +kernel
  rw [image, preview]
  exact ⟨rfl, rfl, by decide +kernel⟩

end LetsEmbed.Pages
