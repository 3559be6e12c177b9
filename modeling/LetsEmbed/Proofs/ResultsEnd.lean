import LetsEmbed.Proofs.ResultsListing
import LetsEmbed.Proofs.ResultsPages

/-! The end of the results. A list that has come to rest without an error, with nothing
more to load, shows everything there is: each page before the last said that there was
more, and the last that there was not. -/

namespace LetsEmbed.Results
open SearchEngine Systems

/-- Every page but the last said that there was more; so did the last, or the list has ended.
No page is of a call that is not made yet. -/
structure Ends (s : State) (first : Nat) (pages : List SearchResponse) : Prop where
  counted : first + pages.length ≤ s.reqId + 1
  full : ∀ k page, pages[k]? = some page → k + 1 < pages.length → page.hasMore = true
  going : s.hasMore = true → ∀ page ∈ pages, page.hasMore = true
  ended : s.loading = false → s.hasMore = false → s.error = none → s.params.mode ≠ .searchImage →
    ∃ page, pages.getLast? = some page ∧ page.hasMore = false

/-- Every navigation has taken effect, nothing is on its way, and nothing more is to come. -/
structure State.AtEnd (s : State) : Prop extends s.Settled where
  loaded : s.loading = false
  ended : s.hasMore = false
  error : s.error = none

instance (s : State) : Decidable s.Settled :=
  decidable_of_iff (s.url = s.params ∧ s.stale = false ∧ (s.params.mode = .searchImage → s.handed = false))
    ⟨fun ⟨read, reacted, handed⟩ => ⟨read, reacted, handed⟩, fun ⟨read, reacted, handed⟩ => ⟨read, reacted, handed⟩⟩

instance (s : State) : Decidable s.AtEnd :=
  decidable_of_iff (s.Settled ∧ s.loading = false ∧ s.hasMore = false ∧ s.error = none)
    ⟨fun ⟨settled, loaded, ended, error⟩ => ⟨settled, loaded, ended, error⟩,
      fun ⟨settled, loaded, ended, error⟩ => ⟨settled, loaded, ended, error⟩⟩

section Steps
variable {boxHeight : (width height : Int) → (columnWidth : Nat) → Nat}
  {server : (id : Nat) → Request → Except String SearchResponse} {s : State} {first : Nat} {pages : List SearchResponse}

theorem Ends.merged (ends : Ends s first pages) (more : s.hasMore = true) (newest : s.reqId = first + pages.length)
    (page : SearchResponse) :
    Ends ({ s with calls := s.calls.filter (·.id ≠ s.reqId) }.merge boxHeight (.ok page)) first (pages ++ [page]) where
  counted := by
    rw [List.length_append, List.length_singleton, ← Nat.add_assoc, ← newest]
    exact Nat.le_refl _
  full := by
    intro k other found earlier
    rw [List.length_append, List.length_singleton] at earlier
    rw [List.getElem?_append_left (Nat.lt_of_succ_lt_succ earlier)] at found
    exact ends.going more other (List.mem_of_getElem? found)
  going := by
    intro next
    refine List.forall_mem_append.mpr ⟨ends.going more, List.forall_mem_singleton.mpr next⟩
  ended _ last _ _ := ⟨page, List.getLast?_concat .., last⟩

structure Ending (server : (id : Nat) → Request → Except String SearchResponse) (s : State) : Prop extends Kept server s where
  loading : s.loading = true → s.hasMore = true
  ends : s.stale = false → (s.params.mode = .searchImage → s.handed = false) →
    ∃ first pages, Current server s first pages ∧ Ends s first pages

/-- Where neither the params nor the image to search by change, the pages go on from those there are. -/
theorem Ending.carry {after : State} (ending : Ending server s) (kept : Kept server after)
    (loading : after.loading = true → after.hasMore = true)
    (same : after.stale = s.stale ∧ after.handed = s.handed ∧ after.params = s.params)
    (ends : ∀ first pages, Current server s first pages → Ends s first pages →
      ∃ pages, Current server after first pages ∧ Ends after first pages) :
    Ending server after := by
  obtain ⟨stale, handed, params⟩ := same
  refine ⟨kept, loading, fun fresh unhanded => ?_⟩
  rw [stale] at fresh
  rw [handed, params] at unhanded
  obtain ⟨first, pages, current, whole⟩ := ending.ends fresh unhanded
  exact ⟨first, ends first pages current whole⟩

theorem Ending.react (ending : Ending server s) : Ending server s.react := by
  by_cases changed : s.stale = true ∨ s.url ≠ s.params
  · have started : Current server s.react (s.reqId + 1) [] := current_react ending.numbered changed
    have loads : s.react.loading = true ∧ s.react.hasMore = true := by
      rw [State.react_eq, if_pos changed]
      exact ⟨rfl, rfl⟩
    refine ⟨ending.toKept.react, fun _ => loads.2, fun _ _ => ⟨_, _, started, ?_, ?_, ?_, ?_⟩⟩
    · rw [State.react_eq, if_pos changed]
      exact Nat.le_succ _
    · intro k page found
      cases found
    · exact fun _ => List.forall_mem_nil _
    · intro loaded
      exact absurd (loads.1.symm.trans loaded) Bool.noConfusion
  · rw [State.react_eq, if_neg changed]
    exact ending

theorem Ending.scroll (ending : Ending server s) : Ending server s.scroll := by
  by_cases idle : s.loading = false ∧ s.hasMore = true
  · have moved := s.scroll_eq
    rw [if_pos idle] at moved
    have more : s.scroll.hasMore = true := by
      rw [moved]
      exact idle.2
    refine ⟨ending.toKept.scroll, fun _ => more, fun fresh unhanded => ?_⟩
    obtain ⟨reacted, unchanged⟩ : s.stale = false ∧ s.url = s.params := by simpa [moved] using fresh
    rw [moved, unchanged] at unhanded
    obtain ⟨first, pages, current, ends⟩ := ending.ends reacted unhanded
    have counted : first + pages.length ≤ s.scroll.reqId + 1 := by
      rw [moved]
      exact Nat.le_succ_of_le ends.counted
    refine ⟨first, pages, current.scrolled ending.numbered unchanged, counted, ends.full, fun _ => ends.going idle.2, ?_⟩
    intro _ last
    exact absurd (more.symm.trans last) Bool.noConfusion
  · rw [State.scroll_eq, if_neg idle]
    exact ending

/-- Only a call without an image to search by ends the list when it is launched. -/
theorem imageless_of_launch {id : Nat} (loads : s.loading = true) (loaded : (s.launch id).loading = false) :
    ∃ call ∈ s.calls, call.id = s.reqId ∧ call.params.mode = .searchImage := by
  unfold State.launch at loaded
  split at loaded
  case h_2 => exact absurd (loads.symm.trans loaded) Bool.noConfusion
  case h_1 number params offset found =>
    split at loaded
    case isFalse => exact absurd (loads.symm.trans loaded) Bool.noConfusion
    case isTrue imageless =>
      have same : number = id := by simpa using List.find?_some found
      dsimp only at loaded
      split at loaded
      case isFalse => exact absurd (loads.symm.trans loaded) Bool.noConfusion
      case isTrue newest => exact ⟨_, List.mem_of_find?_eq_some found, same.trans newest.symm, imageless.1⟩

theorem Ending.launch (ending : Ending server s) (id : Nat) : Ending server (s.launch id) := by
  have kept := ending.toKept.launch id
  obtain same | ⟨call, member, rfl, dropped | launched⟩ := s.launch_cases id
  · rw [same]
    exact ending
  · by_cases newest : s.reqId = call.id
    · have loads : s.loading = true := ending.numbered.newest.mpr ⟨call, member, newest.symm⟩
      rw [if_pos newest, ← newest] at dropped
      obtain ⟨last, asked, latest, imageless⟩ := imageless_of_launch loads (by rw [dropped])
      rw [← newest] at kept ⊢
      rw [dropped] at kept ⊢
      refine ending.carry kept (fun impossible => absurd impossible Bool.noConfusion) ⟨rfl, rfl, rfl⟩ fun _ pages current ends =>
        ⟨pages, current.ended s.error, ends.counted, ends.full, fun impossible => absurd impossible Bool.noConfusion, fun _ _ _ other => ?_⟩
      have params : last.params = s.params := (current.asked last asked latest).2.1
      rw [params] at imageless
      exact absurd imageless other
    · rw [if_neg newest] at dropped
      rw [dropped] at kept ⊢
      refine ending.carry kept ending.loading ⟨rfl, rfl, rfl⟩ fun _ pages current ends =>
        ⟨pages, ?_, ends.counted, ends.full, ends.going, ends.ended⟩
      exact current.superseded fun _ => List.mem_of_mem_filter
  · rw [launched] at kept ⊢
    refine ending.carry kept ending.loading ⟨rfl, rfl, rfl⟩ fun _ pages current ends =>
      ⟨pages, ?_, ends.counted, ends.full, ends.going, ends.ended⟩
    exact current.launched member

theorem Ending.answer (ending : Ending server s) (id : Nat) : Ending server (s.answer boxHeight server id) := by
  have kept := @Kept.answer boxHeight _ _ ending.toKept id
  obtain same | ⟨call, member, rfl, image, launched, answered⟩ := s.answer_cases boxHeight server id
  · rw [same]
    exact ending
  rw [answered] at kept ⊢
  by_cases newest : s.reqId = call.id
  · rw [if_pos newest, ← newest] at kept ⊢
    have loading : s.loading = true := ending.numbered.newest.mpr ⟨call, member, newest.symm⟩
    cases result : server s.reqId ⟨call.params, image, call.offset⟩ with
    | error e =>
      rw [result] at kept
      refine ending.carry kept (fun impossible => absurd impossible Bool.noConfusion) ⟨rfl, rfl, rfl⟩ fun _ pages current ends =>
        ⟨pages, current.ended (some e), ends.counted, ends.full, fun impossible => absurd impossible Bool.noConfusion, fun _ _ unharmed => ?_⟩
      cases unharmed
    | ok page =>
      rw [result] at kept
      refine ending.carry kept (fun impossible => absurd impossible Bool.noConfusion) ⟨rfl, rfl, rfl⟩
        fun first pages current ends => ?_
      obtain ⟨number, params, offset, asks⟩ := current.asked call member newest.symm
      refine ⟨pages ++ [page], ?_, ends.merged (ending.loading loading) (newest.trans number) page⟩
      have request : (⟨call.params, image, call.offset⟩ : Request) = s.page pages.length := by
        rw [params, offset, asks image launched]
      exact current.merged loading ending.laid.nonempty (newest.trans number) (request ▸ result)
  · rw [if_neg newest] at kept ⊢
    refine ending.carry kept ending.loading ⟨rfl, rfl, rfl⟩ fun _ pages current ends =>
      ⟨pages, ?_, ends.counted, ends.full, ends.going, ends.ended⟩
    exact current.superseded fun _ => List.mem_of_mem_filter

theorem Ending.step (ending : Ending server s) (input : Input) : Ending server (step boxHeight server s input) := by
  have kept := @Kept.step boxHeight _ _ ending.toKept input
  cases input with
  | navigate query =>
    exact ending.carry kept ending.loading ⟨rfl, rfl, rfl⟩ fun _ pages current ends =>
      ⟨pages, { current with }, ends.counted, ends.full, ends.going, ends.ended⟩
  | hand image =>
    refine ⟨kept, ending.loading, fun fresh unhanded => ?_⟩
    have unused : s.params.mode ≠ .searchImage := fun used => Bool.false_ne_true (unhanded used).symm
    obtain ⟨first, pages, current, ends⟩ := ending.ends fresh fun used => absurd used unused
    exact ⟨first, pages, current.handed image unused, ends.counted, ends.full, ends.going, ends.ended⟩
  | react => exact ending.react
  | scroll => exact ending.scroll
  | resize count columnWidth =>
    exact ending.carry kept ending.loading ⟨rfl, rfl, rfl⟩ fun _ pages current ends =>
      ⟨pages, current.resized ending.laid count columnWidth, ends.counted, ends.full, ends.going, ends.ended⟩
  | launch id => exact ending.launch id
  | answer id => exact ending.answer id

theorem Ending.run {query : String → Option String} {imgQuery : Option String} {count columnWidth : Nat}
    {past : List (Event State Input Unit)}
    (run : (machine boxHeight server query imgQuery count columnWidth).Run (fun _ _ _ => True)
      (machine boxHeight server query imgQuery count columnWidth).initial past s) : Ending server s := by
  apply run.invariant fun _ s => Ending server s
  · refine ⟨.run .start, fun impossible => ?_, fun fresh => ?_⟩
    · cases impossible
    · cases fresh
  · intro past s input _ _ ending
    exact ending.step input

end Steps

section Rows
variable {server : (id : Nat) → Request → Except String SearchResponse} {s : State} {first : Nat} {pages : List SearchResponse}
  {whole : Nat → Prop} {α : Type} {rows : List α} {read : α → Option Item}

/-- What is searched for is answered, where the call is whole, with windows of these rows,
and a full one is not the last. -/
def Windowed (server : (id : Nat) → Request → Except String SearchResponse) (whole : Nat → Prop) (params : Params)
    (rows : List α) (read : α → Option Item) : Prop :=
  ∀ id image (k : Nat) page, whole id → server id ⟨params, image, k * params.limit⟩ = .ok page →
    page.items = (Windows.window params.limit.toNat rows k).filterMap read ∧
      page.hasMore = decide (params.limit.toNat ≤ (Windows.window params.limit.toNat rows k).length)

/-- Offsets do not overflow before the rows end. -/
theorem offset_of_ends (shows : Shows server s first pages) (ends : Ends s first pages)
    (windowed : Windowed server whole s.params rows read) (through : ∀ id ≤ s.reqId, whole id)
    (positive : 1 ≤ s.params.limit) (few : rows.length < 2 ^ 63) (k : Nat) (inside : k < pages.length) :
    (s.page k).offset = k * s.params.limit := by
  induction k with
  | zero => rw [State.page_zero, Nat.cast_zero, Int.zero_mul]
  | succ k ih =>
    have before : k < pages.length := Nat.lt_of_succ_lt inside
    have found : pages[k]? = some pages[k] := List.getElem?_eq_getElem before
    have answered := shows.answered k _ found
    have asked : s.page k = ⟨s.params, (s.page k).image, k * s.params.limit⟩ := by
      rw [← ih before]
      rfl
    rw [asked] at answered
    have more := ends.full k _ found inside
    have called : first + k ≤ s.reqId := by have := ends.counted; omega
    rw [(windowed _ _ _ _ (through _ called) answered).2, decide_eq_true_iff] at more
    have within := Windows.le_length_of_full more (by omega)
    have small : ((k + 1 : Nat) : Int) * s.params.limit < 2 ^ 63 := by
      have cast : (((k + 1) * s.params.limit.toNat : Nat) : Int) = (k + 1 : Nat) * s.params.limit := by
        rw [Nat.cast_mul, Int.toNat_of_nonneg (by omega)]
      omega
    have large : 0 ≤ ((k + 1 : Nat) : Int) * s.params.limit := Int.mul_nonneg (Int.natCast_nonneg _) (by omega)
    exact Rust.i64_of_fits ⟨by omega, by simp only [Rust.i64Max]; omega⟩

/-- A list at its end shows every row, as often as it is there. -/
theorem shows_rows (ending : Ending server s) (atEnd : s.AtEnd) (other : s.params.mode ≠ .searchImage)
    (windowed : Windowed server whole s.params rows read) (through : ∀ id ≤ s.reqId, whole id)
    (positive : 1 ≤ s.params.limit) (few : rows.length < 2 ^ 63) :
    (items s.columns).Perm ((rows.filterMap read).filter Item.covered) := by
  obtain ⟨first, pages, current, ends⟩ := ending.ends atEnd.reacted atEnd.handed
  obtain ⟨last, newest, stops⟩ := ends.ended atEnd.loaded atEnd.ended atEnd.error other
  have answered (k : Nat) (inside : k < pages.length) :=
    windowed (first + k) (s.page k).image k pages[k] (through _ (by have := ends.counted; omega)) <| by
      rw [← offset_of_ends current.toShows ends windowed through positive few k inside]
      exact current.answered k _ (List.getElem?_eq_getElem inside)
  have each : pages.map SearchResponse.items =
      (List.range pages.length).map fun k => (Windows.window s.params.limit.toNat rows k).filterMap read := by
    apply List.ext_getElem
    · rw [List.length_map, List.length_map, List.length_range]
    · intro k inside _
      rw [List.length_map] at inside
      rw [List.getElem_map, List.getElem_map, List.getElem_range]
      exact (answered k inside).1
  have whole : pages.flatMap SearchResponse.items = rows.filterMap read := by
    obtain ⟨n, length⟩ : ∃ n, pages.length = n + 1 := by
      cases pages with
      | nil => cases newest
      | cons page rest => exact ⟨rest.length, rfl⟩
    have final : pages[n] = last := by
      rw [List.getLast?_eq_getElem?, length, Nat.add_sub_cancel] at newest
      exact (List.getElem?_eq_some_iff.mp newest).2
    have short := (answered n (by omega)).2
    rw [final, stops, eq_comm, decide_eq_false_iff_not, Nat.not_le] at short
    rw [List.flatMap_def, each, ← List.flatMap_def, ← List.filterMap_flatMap, Windows.flatMap_window, length,
      Windows.take_of_short short]
  rw [← whole]
  exact current.placed

end Rows
end LetsEmbed.Results
