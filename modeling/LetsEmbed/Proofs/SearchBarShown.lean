import LetsEmbed.Proofs.ResultsEnd
import LetsEmbed.Proofs.SearchBarQueries

/-! From what is typed to what is shown. Whatever else happens on the page after a search
was submitted, the list that it ends with holds the matches of what was in the bar. -/

namespace LetsEmbed.SearchBar
open Results SearchEngine Systems

section Answers
variable {engine : Engine} {server : (id : Nat) → Request → Except String SearchResponse}
  {whole : Nat → Prop} {mode : Mode} {q : String} {limit seed : Int} {s : State}

/-- The modes that look for a text. -/
def IsText (mode : Mode) : Prop := mode = .tag ∨ mode = .author ∨ mode = .title

/-- What a whole call answers is what `search_query` finds on this engine. Any call may fail,
and one that is not whole may answer anything else: of a query that breaks off the engine
keeps the rows that came before, and its page is short without an error. -/
def Answers (engine : Engine) (server : (id : Nat) → Request → Except String SearchResponse) (whole : Nat → Prop) : Prop :=
  ∀ id request page, whole id → IsText request.params.mode → server id request = .ok page →
    searchQuery engine request.params.mode.asStr request.params.q request.params.seed request.params.limit request.offset =
      .ok page

/-- Newest posts, posts by author or title, or images by tag. -/
def wanted (engine : Engine) (mode : Mode) (q : String) : List Item :=
  if q = "" ∨ mode = .author ∨ mode = .title then ((Engine.byId (matching engine mode q)).filterMap (detailed engine)).map .post
  else (engine.taggedImages q).map .image

/-- The lists of every post that matches load, and an offset can count what is found. -/
structure Listable (engine : Engine) (mode : Mode) (q : String) : Prop where
  loads : q = "" ∨ mode = .author ∨ mode = .title → ∀ post ∈ matching engine mode q, Loads engine post
  few : (wanted engine mode q).length < 2 ^ 63

theorem detailed_length {posts : List Post} (loads : ∀ post ∈ posts, Loads engine post) :
    (posts.filterMap (detailed engine)).length = posts.length :=
  List.filterMap_length_eq_length.mpr fun post member => detailed_isSome.mpr (loads post member)

theorem windowed_posts (answers : Answers engine server whole) (text : IsText mode)
    (listing : q = "" ∨ mode = .author ∨ mode = .title) (positive : 1 ≤ limit)
    (loads : ∀ post ∈ matching engine mode q, Loads engine post) :
    Windowed server whole ⟨mode, q, limit, seed⟩ (Engine.byId (matching engine mode q))
      fun post => (detailed engine post).map .post := by
  intro id image k found through answered
  have asked : q = "" ∨ Mode.parse mode.asStr = .author ∨ Mode.parse mode.asStr = .title := by rwa [parse_asStr]
  have same := answers id _ found through text answered
  dsimp only at same
  rw [searchQuery_page asked positive, parse_asStr] at same
  cases same
  have all : ((page engine mode q limit k).filterMap (detailed engine)).length = (page engine mode q limit k).length := by
    apply detailed_length
    intro post member
    exact loads post (byId_perm.mem_iff.mp (List.mem_of_mem_drop (List.mem_of_mem_take member)))
  have other : mode ≠ .random := by
    rintro rfl
    rcases text with text | text | text <;> cases text
  constructor
  · rw [SearchResponse.items, List.map_nil, List.append_nil, List.map_filterMap]
    rfl
  · dsimp only
    rw [more, if_neg other, all, page]
    congr 1
    rw [ge_iff_le, eq_iff_iff]
    omega

theorem searchQuery_tagged (nonempty : q ≠ "") (positive : 1 ≤ limit) (k : Nat) :
    searchQuery engine Mode.tag.asStr q seed limit (k * limit) =
      .ok ⟨[], Windows.window limit.toNat (engine.taggedImages q) k,
        decide (((Windows.window limit.toNat (engine.taggedImages q) k).length : Int) ≥ limit)⟩ := by
  have window := @window_ok limit _ (engine.taggedImages q) k positive
  have least : max limit 1 = limit := max_eq_left positive
  rw [least] at window
  simp only [searchQuery, parse_asStr, Engine.searchImagesByTag, window, least]
  simp [nonempty]
  rfl

theorem windowed_images (answers : Answers engine server whole) (nonempty : q ≠ "") (positive : 1 ≤ limit) :
    Windowed server whole ⟨.tag, q, limit, seed⟩ (engine.taggedImages q) fun image => some (.image image) := by
  intro id image k found through answered
  have same := answers id _ found through (.inl rfl) answered
  dsimp only at same
  rw [searchQuery_tagged nonempty positive] at same
  cases same
  constructor
  · rw [SearchResponse.items, List.map_nil, List.nil_append, List.filterMap_eq_map']
  · dsimp only
    congr 1
    rw [ge_iff_le, eq_iff_iff]
    omega

/-- A list at its end, all of whose calls were whole, shows what is wanted. -/
theorem shows_wanted (ending : Ending server s) (atEnd : s.AtEnd) (answers : Answers engine server whole)
    (through : ∀ id ≤ s.reqId, whole id) (text : IsText mode)
    (listable : Listable engine mode q) (positive : 1 ≤ limit) (params : s.params = ⟨mode, q, limit, seed⟩) :
    (items s.columns).Perm ((wanted engine mode q).filter Item.covered) := by
  have other : s.params.mode ≠ .searchImage := by
    rw [params]
    rintro rfl
    rcases text with text | text | text <;> cases text
  have counted : 1 ≤ s.params.limit := by rwa [params]
  have few := listable.few
  by_cases listing : q = "" ∨ mode = .author ∨ mode = .title
  · have windowed : Windowed server whole ⟨mode, q, limit, seed⟩ _ _ :=
      windowed_posts answers text listing positive (listable.loads listing)
    rw [wanted, if_pos listing] at few ⊢
    rw [← params] at windowed
    rw [List.map_filterMap]
    apply shows_rows ending atEnd other windowed through counted
    have all : ((Engine.byId (matching engine mode q)).filterMap (detailed engine)).length =
        (Engine.byId (matching engine mode q)).length :=
      detailed_length fun post member => listable.loads listing post (byId_perm.mem_iff.mp member)
    rwa [List.length_map, all] at few
  · obtain ⟨nonempty, rest⟩ := not_or.mp listing
    have tag : mode = .tag := text.resolve_right rest
    subst tag
    have windowed : Windowed server whole ⟨.tag, q, limit, seed⟩ _ _ := windowed_images answers nonempty positive
    rw [wanted, if_neg listing] at few ⊢
    rw [← params] at windowed
    have rows := shows_rows ending atEnd other windowed through counted (by rwa [List.length_map] at few)
    rwa [List.filterMap_eq_map'] at rows

end Answers

section Runs
variable {boxHeight : (width height : Int) → (columnWidth : Nat) → Nat}
  {server : (id : Nat) → Request → Except String SearchResponse} {queryMap : (url key : String) → Option String}
  {whole : Nat → Prop} {query : String → Option String} {imgQuery : Option String} {count columnWidth : Nat} {page : Page}
  {past : List (Event Page Action Unit)}

/-- A seed is an `i64` that is not negative. -/
def Action.Rolled : Action → Prop
  | .random seed | .submit seed | .encoded _ _ seed => seed < 2 ^ 63
  | _ => True

def Action.navigates : Action → Bool
  | .random _ | .submit _ | .encoded .. | .results (.navigate _) => true
  | _ => false

theorem rolled_of_still {action : Action} (still : action.navigates = false) : action.Rolled := by
  cases action with
  | random seed => cases still
  | submit seed => cases still
  | encoded image now seed => cases still
  | tab mode => trivial
  | input q => trivial
  | limit text => trivial
  | chosen fileName => trivial
  | results input => trivial

/-- The results run by themselves, with the navigations of the bar among what happens to them. -/
theorem results_run (run : (machine boxHeight server queryMap query imgQuery count columnWidth).Run (fun _ _ action => action.Rolled)
    (machine boxHeight server queryMap query imgQuery count columnWidth).initial past page) :
    ∃ past, (Results.machine boxHeight server query imgQuery count columnWidth).Run (fun _ _ _ => True)
      (Results.machine boxHeight server query imgQuery count columnWidth).initial past page.results := by
  induction run with
  | start => exact ⟨[], .start⟩
  | @step _ page action run _ ih =>
    obtain ⟨past, ran⟩ := ih
    have moved (input : Input) : ∃ past, (Results.machine boxHeight server query imgQuery count columnWidth).Run (fun _ _ _ => True)
        (Results.machine boxHeight server query imgQuery count columnWidth).initial past
        (Results.step boxHeight server page.results input) := ⟨_, ran.step trivial⟩
    cases action with
    | tab mode => exact ⟨past, ran⟩
    | random seed => exact moved (.navigate (queryMap (page.bar.random.go page.bar.random.qInput seed)))
    | input q => exact ⟨past, ran⟩
    | limit text => exact ⟨past, ran⟩
    | submit seed => exact moved (.navigate (queryMap (page.bar.go page.bar.qInput seed)))
    | chosen fileName => exact ⟨past, ran⟩
    | encoded image now seed =>
      obtain ⟨past, handed⟩ := moved (.hand image)
      exact ⟨_, handed.step trivial⟩
    | results input => exact moved input

theorem parseUsize_lt {text : String} {v : Nat} (read : parseUsize text = some v) : v < 2 ^ 32 := by
  rw [parseUsize, ← String.ofList_toList (s := text), Text.fromStrRadix_eq_some] at read
  obtain ⟨_, _, _, _, _, small⟩ := read
  exact small

theorem limit_fits (run : (machine boxHeight server queryMap query imgQuery count columnWidth).Run (fun _ _ action => action.Rolled)
    (machine boxHeight server queryMap query imgQuery count columnWidth).initial past page) : page.bar.limit < 2 ^ 32 := by
  apply run.invariant fun _ page => page.bar.limit < 2 ^ 32
  · change ((query "limit").bind parseUsize).getD 50 < 2 ^ 32
    cases read : (query "limit").bind parseUsize with
    | none => decide
    | some v =>
      obtain ⟨text, _, parsed⟩ := Option.bind_eq_some_iff.mp read
      exact parseUsize_lt parsed
  · intro _ page action _ _ fits
    cases action with
    | limit text =>
      change (page.bar.limited text).limit < 2 ^ 32
      unfold Bar.limited
      split
      next v parsed =>
        split
        · exact parseUsize_lt parsed
        · exact fits
      · exact fits
    | tab mode => exact fits
    | random seed => exact fits
    | input q => exact fits
    | submit seed => exact fits
    | chosen fileName => exact fits
    | encoded image now seed => exact fits
    | results input => exact fits

theorem url_step {s : State} {input : Input} (still : ∀ query, input ≠ .navigate query) :
    (Results.step boxHeight server s input).url = s.url := by
  cases input with
  | navigate query => exact (still query rfl).elim
  | hand image => rfl
  | react =>
    change s.react.url = s.url
    rw [State.react_eq]
    split <;> rfl
  | scroll =>
    change s.scroll.url = s.url
    rw [State.scroll_eq]
    split <;> rfl
  | resize count columnWidth => rfl
  | launch id =>
    change (s.launch id).url = s.url
    obtain same | ⟨call, _, _, dropped | launched⟩ := s.launch_cases id
    · rw [same]
    · rw [dropped]
      split <;> rfl
    · rw [launched]
  | answer id =>
    change (s.answer boxHeight server id).url = s.url
    obtain same | ⟨call, _, _, image, _, answered⟩ := s.answer_cases boxHeight server id
    · rw [same]
    · rw [answered]
      split
      · unfold State.merge
        split <;> rfl
      · rfl

/-- Only a navigation changes what is searched for. -/
theorem url_of_still {action : Action} (still : action.navigates = false) :
    (step boxHeight server queryMap page action).results.url = page.results.url := by
  cases action with
  | results input =>
    apply url_step
    rintro query rfl
    cases still
  | tab mode => rfl
  | input q => rfl
  | limit text => rfl
  | chosen fileName => rfl
  | random seed => cases still
  | submit seed => cases still
  | encoded image now seed => cases still

end Runs

section Example

def petEngine : Engine where
  posts := []
  keyed := List.nodup_nil
  images := []
  authors := []
  authorPosts := []
  ilike _ _ := false
  taggedImages tag := if tag = "cat & dog" then [⟨1, "one", 640, 480⟩, ⟨2, "two", 480, 640⟩] else []
  listPostImages _ := none
  listPostVideos _ := none

/-- A server that finds at once what is there. -/
def served (engine : Engine) (_ : Nat) (request : Request) : Except String SearchResponse :=
  match searchQuery engine request.params.mode.asStr request.params.q request.params.seed request.params.limit request.offset with
  | .ok page => .ok page
  | .error _ => .error "not found"

theorem answers_served (engine : Engine) : Answers engine (served engine) fun _ => True := by
  intro id request page _ _ answered
  unfold served at answered
  split at answered
  · cases answered
    assumption
  · cases answered

/-- A router that takes the last of repeated fields, for texts without escapes in them. -/
def routed (url key : String) : Option String := (searchParams (Gateway.searchOf url) key).getLast?

theorem reads_routed : Reads routed := by
  intro url key
  constructor
  · intro value read _
    rw [routed, read]
    rfl
  · intro none
    rw [routed, none]
    rfl

def petMachine : Machine Page Action Unit :=
  machine (fun _ _ _ => 100) (served petEngine) routed (fun _ => none) none 2 300

def petTyped : List (Event Page Action Unit) × Page :=
  petMachine.play ([], petMachine.initial) [.results .react, .limit "1", .input "cat & dog"]

theorem permitted_of_still {inputs : List Action} (still : ∀ action ∈ inputs, action.navigates = false)
    (run : List (Event Page Action Unit) × Page) : petMachine.Permitted (fun _ _ action => action.Rolled) run inputs :=
  Machine.permitted_of_mem (fun action member _ _ => rolled_of_still (still action member)) run

/-- Another text is typed, and the answer to the first search comes late. -/
def petShown : List (Event Page Action Unit) × Page :=
  petMachine.play ([], petMachine.next petTyped.2 (.submit 7))
    [.results .react, .results (.launch 1), .input "mouse", .results (.launch 2), .results (.answer 2), .results (.answer 1),
      .results .scroll, .results (.launch 3), .results (.answer 3), .results .scroll, .results (.launch 4), .results (.answer 4)]

theorem petShown_run : petMachine.Run (fun _ _ action => action.Rolled) petMachine.initial
    (petShown.1 ++ petMachine.event petTyped.2 (.submit 7) :: petTyped.1) petShown.2 := by
  have typing : petMachine.Run (fun _ _ action => action.Rolled) petMachine.initial petTyped.1 petTyped.2 :=
    Machine.Run.play .start _ (permitted_of_still (by decide +kernel) _)
  have sent : (Action.submit 7).Rolled := (by decide : 7 < 2 ^ 63)
  exact (typing.step sent).append (Machine.Run.play .start _ (permitted_of_still (by decide +kernel) _))

end Example
end LetsEmbed.SearchBar
