import LetsEmbed.Results
import Mathlib.Data.List.Perm.Basic
import Mathlib.Tactic.Ring

/-! What the list of results shows. Every call is numbered, and one page after the
other is merged while its call is the newest; a navigation starts over with a new
number, so that whatever is still on its way comes too late. -/

namespace LetsEmbed.Results
open Rust Systems

/-! ## The layout -/

section Layout
variable {boxHeight : (width height : Int) → (columnWidth : Nat) → Nat} {columns : List Column}

def items (columns : List Column) : List Item := columns.flatMap fun column => column.items.map (·.item)

def Item.covered (item : Item) : Bool := item.cover.isSome

theorem shortest_some (nonempty : columns ≠ []) : ∃ i, shortest columns = some i ∧ i < columns.length := by
  induction columns with
  | nil => exact absurd rfl nonempty
  | cons column rest ih =>
    cases rest with
    | nil => exact ⟨0, rfl, Nat.zero_lt_one⟩
    | cons second more =>
      obtain ⟨i, found, inside⟩ := ih (List.cons_ne_nil _ _)
      simp only [shortest] at found ⊢
      simp only [found]
      split
      · exact ⟨i + 1, rfl, Nat.succ_lt_succ inside⟩
      · exact ⟨0, rfl, Nat.zero_lt_succ _⟩

theorem items_modify {i : Nat} (inside : i < columns.length) (item : Item) (cover : Image) :
    (items (columns.modify i fun column => column.push boxHeight item cover)).Perm (items columns ++ [item]) := by
  induction columns generalizing i with
  | nil => cases inside
  | cons column rest ih =>
    cases i with
    | zero =>
      simp only [List.modify_zero_cons, items, List.flatMap_cons, Column.push, List.map_append, List.map_singleton]
      simp only [List.append_assoc]
      exact List.perm_append_comm.append_left _
    | succ i =>
      simp only [List.modify_succ_cons, items, List.flatMap_cons, List.append_assoc]
      exact (ih (Nat.lt_of_succ_lt_succ inside)).append_left _

/-- What is placed joins what is there, wherever it goes; without a cover it is left out. -/
theorem place_items (nonempty : columns ≠ []) (item : Item) :
    place boxHeight columns item ≠ [] ∧
      (items (place boxHeight columns item)).Perm (items columns ++ [item].filter Item.covered) := by
  obtain ⟨i, found, inside⟩ := shortest_some nonempty
  cases cover : item.cover with
  | none => simp [place, cover, nonempty, Item.covered]
  | some image =>
    have placed : place boxHeight columns item = columns.modify i fun column => column.push boxHeight item image := by
      simp only [place, cover, found]
    have kept : [item].filter Item.covered = [item] := by simp [Item.covered, cover]
    rw [placed, kept]
    refine ⟨?_, items_modify inside item image⟩
    simpa only [ne_eq, List.modify_eq_nil_iff] using nonempty

theorem foldl_place_items (list : List Item) (nonempty : columns ≠ []) :
    list.foldl (place boxHeight) columns ≠ [] ∧
      (items (list.foldl (place boxHeight) columns)).Perm (items columns ++ list.filter Item.covered) := by
  induction list generalizing columns with
  | nil => exact ⟨nonempty, by simp⟩
  | cons item rest ih =>
    obtain ⟨placed, perm⟩ := @place_items boxHeight columns nonempty item
    obtain ⟨done, rests⟩ := ih placed
    refine ⟨done, rests.trans ?_⟩
    have split : (item :: rest).filter Item.covered = [item].filter Item.covered ++ rest.filter Item.covered :=
      List.filter_append [item] rest
    rw [split, ← List.append_assoc]
    exact perm.append_right _

theorem rows_of_list {α β : Type} (f : α → β) {list : List α} {n : Nat} (enough : list.length ≤ n) :
    ((List.range n).flatMap fun row => (list[row]?.map f).toList) = list.map f := by
  induction list generalizing n with
  | nil => simp
  | cons a rest ih =>
    cases n with
    | zero => cases enough
    | succ n =>
      have later := ih (Nat.le_of_succ_le_succ enough)
      simp only [List.range_succ_eq_map, List.flatMap_cons, List.flatMap_map, List.getElem?_cons_zero,
        List.getElem?_cons_succ, later]
      rfl

theorem rows_perm {old : List Column} {n : Nat} (enough : ∀ column ∈ old, column.items.length ≤ n) :
    ((List.range n).flatMap fun row => old.filterMap fun column => column.items[row]?.map (·.item)).Perm (items old) := by
  induction old with
  | nil => simp [items]
  | cons column rest ih =>
    obtain ⟨here, later⟩ := List.forall_mem_cons.mp enough
    have split (row : Nat) : ((column :: rest).filterMap fun column => column.items[row]?.map (·.item)) =
        (column.items[row]?.map (·.item)).toList ++ rest.filterMap fun column => column.items[row]?.map (·.item) := by
      rw [List.filterMap_cons]
      cases column.items[row]? <;> rfl
    simp only [split, items, List.flatMap_cons]
    have apart := (List.flatMap_append_perm (List.range n) (fun row => (column.items[row]?.map (·.item)).toList)
      fun row => rest.filterMap fun column => column.items[row]?.map (·.item)).symm
    rw [rows_of_list Placed.item here] at apart
    exact apart.trans ((ih later).append_left _)

theorem le_foldl_max {list : List Nat} {start : Nat} :
    start ≤ list.foldl max start ∧ ∀ n ∈ list, n ≤ list.foldl max start := by
  induction list generalizing start with
  | nil => simp
  | cons m rest ih =>
    obtain ⟨first, others⟩ := @ih (max start m)
    refine ⟨(Nat.le_max_left _ _).trans first, List.forall_mem_cons.mpr ⟨(Nat.le_max_right _ _).trans first, others⟩⟩

theorem rowMajor_perm (old : List Column) : (rowMajor old).Perm (items old) :=
  rows_perm fun _ member => le_foldl_max.2 _ (List.mem_map_of_mem member)

/-- Nothing in a column lacks a cover, so laying it out anew loses nothing. -/
theorem reflow_items {old : List Column} (covered : ∀ item ∈ items old, item.covered) (count columnWidth : Nat) :
    reflow boxHeight old count columnWidth ≠ [] ∧ (items (reflow boxHeight old count columnWidth)).Perm (items old) := by
  have empty : items (List.replicate (max count 1) ⟨[], columnWidth, 0⟩) = [] := by simp [items]
  obtain ⟨nonempty, perm⟩ := @foldl_place_items boxHeight (List.replicate (max count 1) ⟨[], columnWidth, 0⟩) (rowMajor old)
    (by simp)
  refine ⟨nonempty, perm.trans ?_⟩
  have all : (rowMajor old).filter Item.covered = rowMajor old :=
    List.filter_eq_self.mpr fun item member => covered item ((rowMajor_perm old).mem_iff.mp member)
  rw [empty, List.nil_append, all]
  exact rowMajor_perm old

/-- There is a column to place in, and whatever is placed has a cover. -/
structure Laid (columns : List Column) : Prop where
  nonempty : columns ≠ []
  covered : ∀ item ∈ items columns, item.covered = true

theorem Laid.placed (laid : Laid columns) (list : List Item) : Laid (list.foldl (place boxHeight) columns) := by
  obtain ⟨nonempty, perm⟩ := @foldl_place_items boxHeight columns list laid.nonempty
  refine ⟨nonempty, fun item member => ?_⟩
  cases List.mem_append.mp (perm.mem_iff.mp member) with
  | inl before => exact laid.covered item before
  | inr added => exact (List.mem_filter.mp added).2

theorem items_clear (columns : List Column) : items (columns.map Column.clear) = [] := by
  simp [items, Column.clear]

theorem Laid.cleared (laid : Laid columns) : Laid (columns.map Column.clear) := by
  refine ⟨fun empty => laid.nonempty (List.map_eq_nil_iff.mp empty), ?_⟩
  simp [items_clear]

theorem Laid.reflowed (laid : Laid columns) (count columnWidth : Nat) :
    Laid (reflow boxHeight columns count columnWidth) := by
  obtain ⟨nonempty, perm⟩ := @reflow_items boxHeight columns laid.covered count columnWidth
  exact ⟨nonempty, fun item member => laid.covered item (perm.mem_iff.mp member)⟩

theorem laid_first (count columnWidth : Nat) : Laid (reflow boxHeight [] count columnWidth) := by
  have nothing : ∀ item ∈ items [], item.covered = true := fun _ member => absurd member List.not_mem_nil
  obtain ⟨nonempty, perm⟩ := @reflow_items boxHeight [] nothing count columnWidth
  exact ⟨nonempty, fun item member => nothing item (perm.mem_iff.mp member)⟩

end Layout

/-! ## The calls -/

/-- Calls are numbered as they are made, and the list is loading while the newest is on its way. -/
structure Numbered (reqId : Nat) (loading : Bool) (calls : List Call) : Prop where
  issued : ∀ call ∈ calls, call.id ≤ reqId
  newest : loading = true ↔ ∃ call ∈ calls, call.id = reqId

section Calls
variable {reqId : Nat} {loading : Bool} {calls : List Call}

theorem Numbered.issue (numbered : Numbered reqId loading calls) (params : Params) (offset : Int) :
    Numbered (reqId + 1) true (calls ++ [⟨reqId + 1, params, offset, none⟩]) := by
  refine ⟨List.forall_mem_append.mpr ⟨fun call member => ?_, by simp⟩, by simp⟩
  exact (numbered.issued call member).trans (Nat.le_succ reqId)

theorem Numbered.returned (numbered : Numbered reqId loading calls) :
    Numbered reqId false (calls.filter (·.id ≠ reqId)) := by
  refine ⟨fun call member => numbered.issued call (List.mem_of_mem_filter member), ?_⟩
  simp

theorem Numbered.superseded (numbered : Numbered reqId loading calls) {id : Nat} (other : reqId ≠ id) :
    Numbered reqId loading (calls.filter (·.id ≠ id)) := by
  refine ⟨fun call member => numbered.issued call (List.mem_of_mem_filter member), numbered.newest.trans ?_⟩
  constructor
  · intro ⟨call, member, newest⟩
    exact ⟨call, List.mem_filter.mpr ⟨member, by simpa [newest] using other⟩, newest⟩
  · intro ⟨call, member, newest⟩
    exact ⟨call, List.mem_of_mem_filter member, newest⟩

theorem Numbered.map (numbered : Numbered reqId loading calls) {f : Call → Call} (same : ∀ call, (f call).id = call.id) :
    Numbered reqId loading (calls.map f) := by
  constructor
  · simpa [same] using numbered.issued
  · simpa [same] using numbered.newest

end Calls

/-! ## The steps -/

namespace State
variable (boxHeight : (width height : Int) → (columnWidth : Nat) → Nat)
  (server : (id : Nat) → Request → Except String SearchResponse) (s : State)

theorem read_eq : s.read = { s with params := s.url, stale := s.stale || decide (s.url ≠ s.params) } := by
  unfold read
  split
  case isTrue same =>
    cases s
    cases same
    simp
  case isFalse differs => simp [differs]

theorem loadPage_eq (offset : Int) : s.loadPage offset =
    { s with
      params := s.url, stale := s.stale || decide (s.url ≠ s.params), reqId := s.reqId + 1, loading := true, error := none
      calls := s.calls ++ [⟨s.reqId + 1, s.url, offset, none⟩] } := by
  simp only [loadPage, read_eq]

/-- The effect of the params starts over, whatever it was that changed. -/
theorem react_eq : s.react = if s.stale = true ∨ s.url ≠ s.params then
    { s with
      params := s.url, stale := false, handed := false, columns := s.columns.map Column.clear, images := [], offset := 0
      hasMore := true, error := none, reqId := s.reqId + 1, loading := true
      calls := s.calls ++ [⟨s.reqId + 1, s.url, 0, none⟩] } else s := by
  simp only [react, read_eq, loadPage_eq, Bool.or_eq_true, decide_eq_true_eq]
  split
  · simp
  case isFalse same =>
    obtain ⟨fresh, unchanged⟩ := not_or.mp same
    cases s
    cases not_not.mp unchanged
    cases Bool.eq_false_of_not_eq_true fresh
    simp

theorem scroll_eq : s.scroll = if s.loading = false ∧ s.hasMore = true then
    { s with
      params := s.url, stale := s.stale || decide (s.url ≠ s.params), offset := i64 (s.offset + s.url.limit)
      reqId := s.reqId + 1, loading := true, error := none
      calls := s.calls ++ [⟨s.reqId + 1, s.url, i64 (s.offset + s.url.limit), none⟩] } else s := by
  simp [scroll, read_eq, loadPage_eq]

/-- What a call that is launched reads, and what becomes of one without an image. -/
theorem launch_cases (id : Nat) : s.launch id = s ∨ ∃ call ∈ s.calls, call.id = id ∧
    (s.launch id = (if s.reqId = id then
        { s with calls := s.calls.filter (·.id ≠ id), hasMore := false, loading := false }
      else { s with calls := s.calls.filter (·.id ≠ id) }) ∨
    s.launch id = { s with calls := s.calls.map fun other => if other.id = id then
      { other with launched := some (if call.params.mode = .searchImage then s.imgQuery else none) } else other }) := by
  unfold launch
  split
  case h_1 number params offset found =>
    have member := List.mem_of_find?_eq_some found
    have same : number = id := by simpa using List.find?_some found
    refine .inr ⟨_, member, same, ?_⟩
    split
    · exact .inl rfl
    · exact .inr rfl
  case h_2 => exact .inl rfl

theorem answer_cases (id : Nat) : s.answer boxHeight server id = s ∨ ∃ call ∈ s.calls, call.id = id ∧
    ∃ image, call.launched = some image ∧ s.answer boxHeight server id = if s.reqId = id then
      { s with calls := s.calls.filter (·.id ≠ id) }.merge boxHeight (server id ⟨call.params, image, call.offset⟩)
    else { s with calls := s.calls.filter (·.id ≠ id) } := by
  unfold answer
  split
  case h_1 number params offset image found =>
    have member := List.mem_of_find?_eq_some found
    have same : number = id := by simpa using List.find?_some found
    exact .inr ⟨_, member, same, image, rfl, rfl⟩
  case h_2 => exact .inl rfl

end State

/-! ## The pages -/

def SearchResponse.items (page : SearchResponse) : List Item := page.posts.map .post ++ page.images.map .image

/-- Page `k` of what is searched for now. The offset is an `i64`, as in the source. -/
def State.page (s : State) (k : Nat) : Request where
  params := s.params
  image := if s.params.mode = .searchImage then s.imgQuery else none
  offset := i64 (k * s.params.limit)

def Call.Asks (call : Call) (request : Request) : Prop :=
  call.params = request.params ∧ call.offset = request.offset ∧ ∀ image, call.launched = some image → image = request.image

/-- The pages from call `first` on were answered one after the other and are what
is shown; the newest call, while it is on its way, asks for the page after them. -/
structure Shows (server : (id : Nat) → Request → Except String SearchResponse) (s : State) (first : Nat)
    (pages : List SearchResponse) : Prop where
  answered : ∀ k page, pages[k]? = some page → server (first + k) (s.page k) = .ok page
  placed : (items s.columns).Perm ((pages.flatMap SearchResponse.items).filter Item.covered)
  images : s.images = pages.flatMap (·.images)
  asked : ∀ call ∈ s.calls, call.id = s.reqId → call.id = first + pages.length ∧ call.Asks (s.page pages.length)

/-- Where the next page is to be counted from. -/
structure Current (server : (id : Nat) → Request → Except String SearchResponse) (s : State) (first : Nat)
    (pages : List SearchResponse) : Prop extends Shows server s first pages where
  waiting : s.loading = true → s.offset = (s.page pages.length).offset
  ready : s.loading = false → s.hasMore = true →
    ∃ n, pages.length = n + 1 ∧ s.reqId = first + n ∧ s.offset = (s.page n).offset

/-- Every navigation has taken effect, with the image it was made for. -/
structure State.Settled (s : State) : Prop where
  read : s.url = s.params
  reacted : s.stale = false
  handed : s.params.mode = .searchImage → s.handed = false

section Steps
variable {boxHeight : (width height : Int) → (columnWidth : Nat) → Nat}
  {server : (id : Nat) → Request → Except String SearchResponse} {s : State} {first : Nat} {pages : List SearchResponse}

theorem merge_items (columns : List Column) (page : SearchResponse) :
    page.images.foldl (placeImage boxHeight) (page.posts.foldl (placePost boxHeight) columns) =
      page.items.foldl (place boxHeight) columns := by
  rw [SearchResponse.items, List.foldl_append, List.foldl_map, List.foldl_map]
  rfl

theorem next_offset (s : State) (k : Nat) :
    i64 ((s.page k).offset + s.params.limit) = (s.page (k + 1)).offset := by
  simp only [State.page, i64, Int.bmod_add_bmod]
  congr 1
  push_cast
  ring

/-- A call that came too late is gone, and nothing else changes. -/
theorem Current.superseded (current : Current server s first pages) {calls : List Call}
    (fewer : ∀ call ∈ calls, call ∈ s.calls) : Current server { s with calls } first pages :=
  { current with asked := fun call member => current.asked call (fewer call member) }

/-- The newest call ends the list, in an error or without asking. -/
theorem Current.ended (current : Current server s first pages) (error : Option String) :
    Current server { s with calls := s.calls.filter (·.id ≠ s.reqId), hasMore := false, loading := false, error } first
      pages where
  answered := current.answered
  placed := current.placed
  images := current.images
  asked _ member newest := absurd newest (of_decide_eq_true (List.mem_filter.mp member).2)
  waiting impossible := absurd impossible Bool.false_ne_true
  ready _ impossible := absurd impossible Bool.false_ne_true

theorem Current.launched (current : Current server s first pages) {call : Call} (member : call ∈ s.calls) :
    Current server { s with calls := s.calls.map fun other => if other.id = call.id then
      { other with launched := some (if call.params.mode = .searchImage then s.imgQuery else none) } else other }
      first pages := by
  refine { current with asked := fun other mapped newest => ?_ }
  obtain ⟨before, earlier, rfl⟩ := List.mem_map.mp mapped
  dsimp only at newest ⊢
  split at newest
  case isFalse differs =>
    rw [if_neg differs]
    exact current.asked before earlier newest
  case isTrue same =>
    rw [if_pos same]
    obtain ⟨number, params, offset, _⟩ := current.asked before earlier newest
    have launched : call.params = s.params := (current.asked call member (same ▸ newest)).2.1
    refine ⟨number, params, offset, fun image read => ?_⟩
    rw [← Option.some.inj read, launched]
    rfl

/-- A page that arrives in time is the next one, and is placed after those before it. -/
theorem Current.merged (current : Current server s first pages) (loading : s.loading = true) (nonempty : s.columns ≠ [])
    {page : SearchResponse} (next : s.reqId = first + pages.length)
    (answer : server s.reqId (s.page pages.length) = .ok page) :
    Current server ({ s with calls := s.calls.filter (·.id ≠ s.reqId) }.merge boxHeight (.ok page)) first
      (pages ++ [page]) where
  answered := by
    intro k other found
    by_cases earlier : k < pages.length
    · rw [List.getElem?_append_left earlier] at found
      exact current.answered k other found
    · have last : k = pages.length := by
        have inside := (List.getElem?_eq_some_iff.mp found).1
        simp only [List.length_append, List.length_singleton] at inside
        omega
      subst last
      cases (List.getElem?_concat_length.symm.trans found)
      exact next ▸ answer
  placed := by
    have joined := (@foldl_place_items boxHeight s.columns page.items nonempty).2
    simp only [State.merge, merge_items, List.flatMap_append, List.flatMap_singleton, List.filter_append]
    exact joined.trans (current.placed.append_right _)
  images := by simp only [State.merge, current.images, List.flatMap_append, List.flatMap_singleton]
  asked _ member newest := absurd newest (of_decide_eq_true (List.mem_filter.mp member).2)
  waiting impossible := absurd impossible Bool.false_ne_true
  ready _ _ := ⟨pages.length, List.length_append, next, current.waiting loading⟩

theorem State.page_zero (s : State) : (s.page 0).offset = 0 := by
  simp [State.page, i64]

/-- Whatever is on its way when the effect of the params runs has an older number. -/
theorem current_react (numbered : Numbered s.reqId s.loading s.calls) (changed : s.stale = true ∨ s.url ≠ s.params) :
    Current server s.react (s.reqId + 1) [] := by
  have asked : ∀ call ∈ s.react.calls, call.id = s.react.reqId →
      call.id = s.reqId + 1 + 0 ∧ call.Asks (s.react.page 0) := by
    rw [State.react_eq, if_pos changed]
    intro call member newest
    cases List.mem_append.mp member with
    | inl older => exact absurd newest (Nat.ne_of_lt (Nat.lt_succ_of_le (numbered.issued call older)))
    | inr made =>
      cases List.mem_singleton.mp made
      exact ⟨rfl, rfl, (State.page_zero _).symm, fun _ impossible => by cases impossible⟩
  refine ⟨⟨?_, ?_, ?_, asked⟩, ?_, ?_⟩
  · intro k page found
    cases found
  all_goals rw [State.react_eq, if_pos changed]
  · rw [items_clear]
    rfl
  · rfl
  · intro _
    exact (State.page_zero _).symm
  · intro impossible
    cases impossible

theorem Current.scrolled (current : Current server s first pages) (numbered : Numbered s.reqId s.loading s.calls)
    (unchanged : s.url = s.params) : Current server s.scroll first pages := by
  rw [State.scroll_eq, unchanged]
  split
  case isFalse => exact current
  case isTrue idle =>
    obtain ⟨n, length, newest, offset⟩ := current.ready idle.1 idle.2
    have next : i64 (s.offset + s.params.limit) = (s.page pages.length).offset := by
      rw [offset, next_offset, length]
    refine ⟨⟨current.answered, current.placed, current.images, fun call member latest => ?_⟩, fun _ => next, ?_⟩
    · cases List.mem_append.mp member with
      | inl older => exact absurd latest (Nat.ne_of_lt (Nat.lt_succ_of_le (numbered.issued call older)))
      | inr made =>
        cases List.mem_singleton.mp made
        refine ⟨?_, rfl, next, fun _ impossible => by cases impossible⟩
        rw [newest, length, Nat.add_assoc]
    · intro impossible
      cases impossible

theorem Current.resized (current : Current server s first pages) (laid : Laid s.columns) (count columnWidth : Nat) :
    Current server { s with columns := reflow boxHeight s.columns count columnWidth } first pages :=
  { current with placed := (reflow_items laid.covered count columnWidth).2.trans current.placed }

theorem Current.handed (current : Current server s first pages) (image : String)
    (unused : s.params.mode ≠ .searchImage) : Current server { s with imgQuery := some image, handed := true } first pages := by
  have same : ∀ k, State.page { s with imgQuery := some image, handed := true } k = s.page k := by
    intro k
    simp only [State.page, if_neg unused]
  refine ⟨⟨?_, current.placed, current.images, ?_⟩, ?_, ?_⟩
  all_goals simp only [same]
  · exact current.answered
  · exact current.asked
  · exact current.waiting
  · exact current.ready

/-! ## The invariant -/

structure Kept (server : (id : Nat) → Request → Except String SearchResponse) (s : State) : Prop where
  laid : Laid s.columns
  numbered : Numbered s.reqId s.loading s.calls
  current : s.stale = false → (s.params.mode = .searchImage → s.handed = false) → ∃ first pages, Current server s first pages

/-- Where neither the params nor the image to search by change, the pages go on from those there are. -/
theorem Kept.carry {after : State} (kept : Kept server s) (laid : Laid after.columns)
    (numbered : Numbered after.reqId after.loading after.calls)
    (same : after.stale = s.stale ∧ after.handed = s.handed ∧ after.params = s.params)
    (current : ∀ first pages, Current server s first pages → ∃ pages, Current server after first pages) :
    Kept server after := by
  obtain ⟨stale, handed, params⟩ := same
  refine ⟨laid, numbered, fun fresh unhanded => ?_⟩
  rw [stale] at fresh
  rw [handed, params] at unhanded
  obtain ⟨first, pages, shown⟩ := kept.current fresh unhanded
  exact ⟨first, current first pages shown⟩

theorem Kept.react (kept : Kept server s) : Kept server s.react := by
  by_cases changed : s.stale = true ∨ s.url ≠ s.params
  · have started : Current server s.react (s.reqId + 1) [] := current_react kept.numbered changed
    refine ⟨?_, ?_, fun _ _ => ⟨_, _, started⟩⟩
    all_goals rw [State.react_eq, if_pos changed]
    · exact kept.laid.cleared
    · exact kept.numbered.issue s.url 0
  · rw [State.react_eq, if_neg changed]
    exact kept

theorem Kept.scroll (kept : Kept server s) : Kept server s.scroll := by
  by_cases idle : s.loading = false ∧ s.hasMore = true
  · have moved := s.scroll_eq
    rw [if_pos idle] at moved
    refine ⟨?_, ?_, fun fresh unhanded => ?_⟩
    · rw [moved]
      exact kept.laid
    · rw [moved]
      exact kept.numbered.issue s.url _
    · -- a page of other params is no page of these: the effect that is due will start over
      obtain ⟨reacted, unchanged⟩ : s.stale = false ∧ s.url = s.params := by simpa [moved] using fresh
      rw [moved, unchanged] at unhanded
      obtain ⟨first, pages, current⟩ := kept.current reacted unhanded
      exact ⟨first, pages, current.scrolled kept.numbered unchanged⟩
  · rw [State.scroll_eq, if_neg idle]
    exact kept

theorem Kept.launch (kept : Kept server s) (id : Nat) : Kept server (s.launch id) := by
  obtain same | ⟨call, member, rfl, dropped | launched⟩ := s.launch_cases id
  · rw [same]
    exact kept
  · rw [dropped]
    split
    case isTrue newest =>
      rw [← newest]
      exact kept.carry kept.laid kept.numbered.returned ⟨rfl, rfl, rfl⟩ fun _ pages current => ⟨pages, current.ended s.error⟩
    case isFalse other =>
      refine kept.carry kept.laid (kept.numbered.superseded other) ⟨rfl, rfl, rfl⟩ fun _ pages current => ⟨pages, ?_⟩
      exact current.superseded fun _ => List.mem_of_mem_filter
  · rw [launched]
    refine kept.carry kept.laid (kept.numbered.map fun other => ?_) ⟨rfl, rfl, rfl⟩ fun _ pages current => ⟨pages, ?_⟩
    · split <;> rfl
    · exact current.launched member

theorem Kept.answer (kept : Kept server s) (id : Nat) : Kept server (s.answer boxHeight server id) := by
  obtain same | ⟨call, member, rfl, image, launched, answered⟩ := s.answer_cases boxHeight server id
  · rw [same]
    exact kept
  rw [answered]
  split
  case isFalse other =>
    refine kept.carry kept.laid (kept.numbered.superseded other) ⟨rfl, rfl, rfl⟩ fun _ pages current => ⟨pages, ?_⟩
    exact current.superseded fun _ => List.mem_of_mem_filter
  case isTrue newest =>
    rw [← newest]
    cases result : server s.reqId ⟨call.params, image, call.offset⟩ with
    | error e =>
      exact kept.carry kept.laid kept.numbered.returned ⟨rfl, rfl, rfl⟩ fun _ pages current => ⟨pages, current.ended (some e)⟩
    | ok page =>
      refine kept.carry ?_ kept.numbered.returned ⟨rfl, rfl, rfl⟩ fun first pages current => ⟨pages ++ [page], ?_⟩
      · simp only [State.merge, merge_items]
        exact kept.laid.placed page.items
      · obtain ⟨number, params, offset, asks⟩ := current.asked call member newest.symm
        have request : (⟨call.params, image, call.offset⟩ : Request) = s.page pages.length := by
          rw [params, offset, asks image launched]
        have loading : s.loading = true := kept.numbered.newest.mpr ⟨call, member, newest.symm⟩
        exact current.merged loading kept.laid.nonempty (newest.trans number) (request ▸ result)

theorem Kept.step (kept : Kept server s) (input : Input) : Kept server (step boxHeight server s input) := by
  cases input with
  | navigate query =>
    exact kept.carry kept.laid kept.numbered ⟨rfl, rfl, rfl⟩ fun _ pages current => ⟨pages, { current with }⟩
  | hand image =>
    refine ⟨kept.laid, kept.numbered, fun fresh unhanded => ?_⟩
    have unused : s.params.mode ≠ .searchImage := fun used => Bool.false_ne_true (unhanded used).symm
    obtain ⟨first, pages, current⟩ := kept.current fresh fun used => absurd used unused
    exact ⟨first, pages, current.handed image unused⟩
  | react => exact kept.react
  | scroll => exact kept.scroll
  | resize count columnWidth =>
    have laid : Laid (reflow boxHeight s.columns count columnWidth) := kept.laid.reflowed count columnWidth
    refine kept.carry laid kept.numbered ⟨rfl, rfl, rfl⟩ fun _ pages current => ⟨pages, ?_⟩
    exact current.resized kept.laid count columnWidth
  | launch id => exact kept.launch id
  | answer id => exact kept.answer id

theorem Kept.run {query : String → Option String} {imgQuery : Option String} {count columnWidth : Nat}
    {past : List (Event State Input Unit)}
    (run : (machine boxHeight server query imgQuery count columnWidth).Run (fun _ _ _ => True)
      (machine boxHeight server query imgQuery count columnWidth).initial past s) : Kept server s := by
  apply run.invariant fun _ s => Kept server s
  · refine ⟨@laid_first boxHeight count columnWidth, ⟨fun _ member => absurd member List.not_mem_nil, ?_⟩, fun fresh => by cases fresh⟩
    simp [machine, initial]
  · intro past s input _ _ kept
    exact kept.step input

end Steps

section Example

def sampleQuery (q : String) (key : String) : Option String :=
  if key = "q" then some q else if key = "limit" then some "2" else none

/-- Pages of "a" are posts, one of them without a cover; those of "b" are images. -/
def sampleServer (_ : Nat) (request : Request) : Except String SearchResponse :=
  let image := fun id => Image.mk id "i" 10 20
  if request.params.q = "a" then .ok ⟨[⟨1, [image 7]⟩, ⟨2, []⟩], [], true⟩
  else if request.offset = 0 then .ok ⟨[], [image 8, image 9], true⟩
  else .error "gone"

end Example
end LetsEmbed.Results
