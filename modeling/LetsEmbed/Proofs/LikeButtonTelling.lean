import LetsEmbed.LikeButton

/-! Every button has one call at a time, and at rest it shows what the table held when its
last answer was made. -/

namespace LetsEmbed.LikeButton
open Likes Rust Systems

abbrev Past := List (Event State Input (Option Note))

def Stored (address kind : String) (targetId : Int) (table : Table) : Prop :=
  (address, kind, targetId) ∈ table.rows.map Like.primaryKey

section Handlers
variable {button : Button} {session : Option String} {now : Int} {ran : Ran} {table : Table} {liked : Bool} {result : Answer × Table}

theorem apply_liked (told : (ran.apply table result).1 = .liked liked) : ran.apply table result = result := by
  cases ran with
  | done => rfl
  | refused => cases told
  | lost => cases told

theorem guarded_liked {kind : Option String} {next : String → Answer × Table}
    (told : (guarded session kind (·, table) next).1 = .liked liked) :
    ∃ address, session = some address ∧ guarded session kind (·, table) next = next address := by
  cases session with
  | none => cases told
  | some address =>
    refine ⟨address, rfl, ?_⟩
    unfold guarded at told ⊢
    dsimp only at told ⊢
    split at told
    · next valid => rw [if_pos valid]
    · cases told

theorem stored_insertOrIgnore {address : String} (valid : validLikeKind button.kind = true) :
    Stored address button.kind (asF64 button.targetId)
      (table.insertOrIgnore ⟨address, button.kind, asF64 button.targetId, now⟩ valid) := by
  rw [Stored, Table.insertOrIgnore]
  split
  · next present => exact present
  · rw [List.map_append, List.map_singleton]
    exact List.mem_append_right _ (List.mem_singleton.mpr rfl)

theorem not_stored_delete {address : String} {targetId : Int} :
    ¬ Stored address button.kind targetId (table.delete address button.kind targetId) := by
  intro stored
  obtain ⟨row, kept, same⟩ := List.mem_map.mp stored
  exact of_decide_eq_true (List.mem_filter.mp kept).2 same

/-- An answer that tells whether the target is liked tells it of the table it leaves, of the
id that the target's is stored as. -/
theorem serve_liked {method : Method} (told : (button.serve method session now ran table).1 = .liked liked) :
    ∃ address, session = some address ∧
      (Stored address button.kind (asF64 button.targetId) (button.serve method session now ran table).2 ↔ liked = true) := by
  cases method with
  | get =>
    change Likes.liked session button.request ran table = .liked liked at told
    cases session with
    | none => cases told
    | some address =>
      refine ⟨address, rfl, ?_⟩
      rw [Likes.liked, guarded] at told
      split at told
      · rw [apply_liked told] at told
        injection told with told
        rw [← told, List.any_eq_true, Stored, List.mem_map]
        simp only [decide_eq_true_eq]
        rfl
      · cases told
  | post =>
    change (like session button.request now ran table).1 = .liked liked at told
    cases session with
    | none => cases told
    | some address =>
      refine ⟨address, rfl, ?_⟩
      change Stored address button.kind (asF64 button.targetId) (like (some address) button.request now ran table).2 ↔ liked = true
      rw [like] at told ⊢
      split at told
      · next valid =>
        rw [dif_pos valid]
        have done := apply_liked told
        rw [done] at told ⊢
        injection told with told
        exact iff_of_true (stored_insertOrIgnore valid) told.symm
      · cases told
  | delete =>
    change (unlike session button.request ran table).1 = .liked liked at told
    obtain ⟨address, rfl, next⟩ := guarded_liked told
    refine ⟨address, rfl, ?_⟩
    change Stored address button.kind (asF64 button.targetId) (unlike (some address) button.request ran table).2 ↔ liked = true
    rw [unlike] at told ⊢
    rw [next] at told ⊢
    have done := apply_liked told
    rw [done] at told ⊢
    injection told with told
    exact iff_of_false not_stored_delete (told ▸ Bool.false_ne_true)

end Handlers

section Steps
variable {s : State} {b : Nat}

def Silent (b : Nat) (note : Option Note) : Prop := ∀ session answer, note ≠ some (.served b session answer)

def Unanswered (b : Nat) (note : Option Note) : Prop := ∀ liked, note ≠ some (.arrived b (.ok (.liked liked)))

/-- What a step can make of a button, with what it notes and the table it leaves. -/
inductive Moves (b : Nat) (button : Button) : Option Note → Table → Button → Prop where
  | stay {note table} (silent : Silent b note) (unanswered : Unanswered b note) : Moves b button note table button
  | toggle {table} : Moves b button none table button.toggle
  | serve {i method prev session now ran table} (waits : button.calls[i]? = some ⟨method, prev, none⟩) :
      Moves b button (some (.served b session (button.serve method session now ran table).1))
        (button.serve method session now ran table).2
        (button.resolve i (read (button.serve method session now ran table).1))
  | lose {table} (i : Nat) (message : String) : Moves b button none table (button.resolve i (.error message))
  | settle {i method prev result table} (ended : button.calls[i]? = some ⟨method, prev, some result⟩) :
      Moves b button (some (.arrived b result)) table (button.settle i ⟨method, prev, some result⟩ result)
  | dispose {table} : Moves b button none table { button with disposed := true }

theorem modify_cases {other : Nat} {f : Button → Button} {button' : Button} (found : (s.modify other f).buttons[b]? = some button') :
    ∃ button, s.buttons[b]? = some button ∧ (other = b ∧ button' = f button ∨ other ≠ b ∧ button' = button) := by
  change (s.buttons.modify other f)[b]? = some button' at found
  rw [List.getElem?_modify] at found
  obtain ⟨button, known, same⟩ := Option.map_eq_some_iff.mp found
  refine ⟨button, known, ?_⟩
  split at same
  · next here => exact .inl ⟨here, same.symm⟩
  · next elsewhere => exact .inr ⟨elsewhere, same.symm⟩

theorem call_some {i : Nat} {button : Button} {call : Call} (found : s.call b i = some (button, call)) :
    s.buttons[b]? = some button ∧ button.calls[i]? = some call := by
  obtain ⟨other, known, found⟩ := Option.bind_eq_some_iff.mp found
  obtain ⟨call', here, same⟩ := Option.map_eq_some_iff.mp found
  obtain ⟨rfl, rfl⟩ := Prod.mk.inj same
  exact ⟨known, here⟩

theorem silent_none : Silent b none := fun _ _ impossible => by cases impossible

theorem unanswered_none : Unanswered b none := fun _ impossible => by cases impossible

theorem silent_served {other : Nat} {session : Option String} {answer : Answer} (elsewhere : other ≠ b) :
    Silent b (some (.served other session answer)) := by
  intro _ _ same
  cases same
  exact elsewhere rfl

theorem unanswered_arrived {other : Nat} {result : Except String ApiResult} (elsewhere : other ≠ b) :
    Unanswered b (some (.arrived other result)) := by
  intro _ same
  cases same
  exact elsewhere rfl

/-- A button was there before, or is new. -/
theorem step_button {input : Input} {button' : Button} (found : (s.step input).2.buttons[b]? = some button') :
    (∃ button, s.buttons[b]? = some button ∧ Moves b button (s.step input).1 (s.step input).2.table button') ∨
      ∃ kind targetId, (s.step input).1 = none ∧ button' = .mount kind targetId := by
  cases input with
  | mount kind targetId =>
    change (s.buttons ++ [Button.mount kind targetId])[b]? = some button' at found
    rw [List.getElem?_append] at found
    split at found
    · exact .inl ⟨button', found, .stay silent_none unanswered_none⟩
    · exact .inr ⟨kind, targetId, rfl, (List.mem_singleton.mp (List.mem_of_getElem? found))⟩
  | click other =>
    obtain ⟨button, known, ⟨rfl, rfl⟩ | ⟨_, rfl⟩⟩ := modify_cases found
    · exact .inl ⟨button, known, .toggle⟩
    · exact .inl ⟨_, known, .stay silent_none unanswered_none⟩
  | serve other i session now ran =>
    rw [State.step] at found ⊢
    split at found
    · next button method prev waits =>
      obtain ⟨before, known, ⟨rfl, rfl⟩ | ⟨elsewhere, rfl⟩⟩ := modify_cases found
      · obtain ⟨here, waits⟩ := call_some waits
        obtain rfl := Option.some.inj (known.symm.trans here)
        exact .inl ⟨_, known, .serve waits⟩
      · exact .inl ⟨_, known, .stay (silent_served elsewhere) fun _ impossible => by cases impossible⟩
    · exact .inl ⟨button', found, .stay silent_none unanswered_none⟩
  | lose other i message =>
    obtain ⟨button, known, ⟨rfl, rfl⟩ | ⟨_, rfl⟩⟩ := modify_cases found
    · exact .inl ⟨button, known, .lose i message⟩
    · exact .inl ⟨_, known, .stay silent_none unanswered_none⟩
  | settle other i =>
    rw [State.step] at found ⊢
    split at found
    · next button method prev result ended =>
      obtain ⟨before, known, ⟨rfl, rfl⟩ | ⟨elsewhere, rfl⟩⟩ := modify_cases found
      · obtain ⟨here, ended⟩ := call_some ended
        obtain rfl := Option.some.inj (known.symm.trans here)
        exact .inl ⟨_, known, .settle ended⟩
      · exact .inl ⟨_, known, .stay (fun _ _ impossible => by cases impossible) (unanswered_arrived elsewhere)⟩
    · exact .inl ⟨button', found, .stay silent_none unanswered_none⟩
  | dispose other =>
    obtain ⟨button, known, ⟨rfl, rfl⟩ | ⟨_, rfl⟩⟩ := modify_cases found
    · exact .inl ⟨button, known, .dispose⟩
    · exact .inl ⟨_, known, .stay silent_none unanswered_none⟩
  | elsewhere write session ran =>
    exact .inl ⟨button', found, .stay silent_none unanswered_none⟩

end Steps

section Phases
variable {past : Past} {b : Nat} {kind : String} {targetId : Int} {liked : Bool} {event : Event State Input (Option Note)}

/-- The last of the button's calls to be served told this, and the table was so. -/
def Answered (past : Past) (b : Nat) (kind : String) (targetId : Int) (liked : Bool) : Prop :=
  ∃ middle service early address, past = middle ++ service :: early ∧
    service.output = some (.served b (some address) (.liked liked)) ∧
    (Stored address kind (asF64 targetId) service.after.table ↔ liked = true) ∧ ∀ event ∈ middle, Silent b event.output

/-- What is shown is the last answer to arrive. -/
def Told (past : Past) (b : Nat) (kind : String) (targetId : Int) (shown : LikeState) : Prop :=
  ∀ liked, shown = .told liked → ∃ late arrival rest, past = late ++ arrival :: rest ∧
    arrival.output = some (.arrived b (.ok (.liked liked))) ∧ Answered rest b kind targetId liked ∧
    ∀ event ∈ late, Unanswered b event.output

def Decided (past : Past) (b : Nat) (kind : String) (targetId : Int) : Option (Except String ApiResult) → Prop
  | some (.ok (.liked liked)) => Answered past b kind targetId liked
  | _ => True

inductive Phase (past : Past) (b : Nat) : Button → Prop where
  | left {button : Button} (gone : button.disposed = true) (few : button.calls.length ≤ 1) : Phase past b button
  | loading {kind targetId result} (decided : Decided past b kind targetId result) :
      Phase past b ⟨kind, targetId, none, false, false, [⟨.get, .signedOut, result⟩]⟩
  | resting {kind targetId shown} (told : Told past b kind targetId shown) :
      Phase past b ⟨kind, targetId, some shown, false, false, []⟩
  | toggling {kind targetId liked result} (told : Told past b kind targetId (.told liked))
      (decided : Decided past b kind targetId result) :
      Phase past b ⟨kind, targetId, some (.told !liked), true, false, [⟨if liked then .delete else .post, .told liked, result⟩]⟩

theorem told_injective {liked liked' : Bool} (same : LikeState.told liked = .told liked') : liked = liked' := by
  cases liked <;> cases liked' <;> first | rfl | cases same

theorem told_signedOut : Told past b kind targetId .signedOut := by
  intro liked impossible
  cases liked <;> cases impossible

theorem Answered.later (answered : Answered past b kind targetId liked) (silent : Silent b event.output) :
    Answered (event :: past) b kind targetId liked := by
  obtain ⟨middle, service, early, address, rfl, served, stored, quiet⟩ := answered
  exact ⟨event :: middle, service, early, address, rfl, served, stored, List.forall_mem_cons.mpr ⟨silent, quiet⟩⟩

theorem Told.later {shown : LikeState} (told : Told past b kind targetId shown) (unanswered : Unanswered b event.output) :
    Told (event :: past) b kind targetId shown := by
  intro liked same
  obtain ⟨late, arrival, rest, rfl, arrived, answered, quiet⟩ := told liked same
  exact ⟨event :: late, arrival, rest, rfl, arrived, answered, List.forall_mem_cons.mpr ⟨unanswered, quiet⟩⟩

theorem Decided.later {result : Option (Except String ApiResult)} (decided : Decided past b kind targetId result)
    (silent : Silent b event.output) : Decided (event :: past) b kind targetId result := by
  unfold Decided at decided ⊢
  split
  · exact Answered.later decided silent
  · trivial

theorem Phase.later {button : Button} (phase : Phase past b button) (silent : Silent b event.output)
    (unanswered : Unanswered b event.output) : Phase (event :: past) b button := by
  cases phase with
  | left gone few => exact .left gone few
  | loading decided => exact .loading (decided.later silent)
  | resting told => exact .resting (told.later unanswered)
  | toggling told decided => exact .toggling (told.later unanswered) (decided.later silent)

/-- What an answer decides. -/
theorem decided_read {button : Button} {method : Method} {session : Option String} {now : Int} {ran : Ran} {table : Table}
    (output : event.output = some (.served b session (button.serve method session now ran table).1))
    (left : event.after.table = (button.serve method session now ran table).2) :
    Decided (event :: past) b button.kind button.targetId (some (read (button.serve method session now ran table).1)) := by
  cases answer : (button.serve method session now ran table).1 with
  | error status message =>
    rw [read]
    split <;> trivial
  | likes items nextCursor => trivial
  | liked liked =>
    obtain ⟨address, rfl, stored⟩ := serve_liked answer
    rw [answer] at output
    rw [← left] at stored
    exact ⟨[], event, past, address, rfl, output, stored, List.forall_mem_nil _⟩

theorem single {α : Type} {only found : α} {i : Nat} (known : [only][i]? = some found) : i = 0 ∧ found = only := by
  cases i with
  | zero => exact ⟨rfl, (Option.some.inj known).symm⟩
  | succ i => cases known

/-- What arrives is shown, or what was shown before the click. -/
theorem told_next {result : Except String ApiResult} {method : Method} {prev : LikeState}
    (told : Told past b kind targetId prev) (decided : Decided past b kind targetId (some result))
    (output : event.output = some (.arrived b result)) :
    Told (event :: past) b kind targetId (Call.next ⟨method, prev, some result⟩ result) := by
  cases result with
  | error message =>
    apply told.later
    intro liked same
    rw [output] at same
    cases same
  | ok found =>
    cases found with
    | unauthorized => exact told_signedOut
    | liked liked =>
      intro liked' same
      obtain rfl := told_injective same
      exact ⟨[], event, past, rfl, output, decided, List.forall_mem_nil _⟩

theorem resolve_beyond {button : Button} {i : Nat} {result : Except String ApiResult} (beyond : button.calls.length ≤ i) :
    button.resolve i result = button := by
  rw [Button.resolve, List.modify_eq_self beyond]

theorem Phase.step {button button' : Button} (phase : Phase past b button)
    (moves : Moves b button event.output event.after.table button') : Phase (event :: past) b button' := by
  generalize noted : event.output = note at moves
  generalize left : event.after.table = table at moves
  cases moves with
  | stay silent unanswered => exact phase.later (noted ▸ silent) (noted ▸ unanswered)
  | toggle =>
    have silent : Silent b event.output := noted ▸ silent_none
    have unanswered : Unanswered b event.output := noted ▸ unanswered_none
    have later := phase.later silent unanswered
    cases later with
    | left gone few =>
      rw [Button.toggle, if_pos (.inl gone)]
      exact .left gone few
    | loading decided => exact .loading decided
    | @resting _ _ shown told =>
      cases shown with
      | liked => exact @Phase.toggling _ b _ _ true none told trivial
      | notLiked => exact @Phase.toggling _ b _ _ false none told trivial
      | signedOut => exact .resting told
    | toggling told decided => exact .toggling told decided
  | serve waits =>
    have unanswered : Unanswered b event.output := noted ▸ fun _ impossible => by cases impossible
    have decided := @decided_read past b event button _ _ _ _ _ noted left
    cases phase with
    | left gone few => exact .left gone (by rwa [Button.resolve, List.length_modify])
    | loading _ =>
      obtain ⟨rfl, _⟩ := single waits
      exact .loading decided
    | resting told => cases waits
    | toggling told _ =>
      obtain ⟨rfl, _⟩ := single waits
      exact .toggling (told.later unanswered) decided
  | lose i message =>
    have silent : Silent b event.output := noted ▸ silent_none
    have unanswered : Unanswered b event.output := noted ▸ unanswered_none
    have later := phase.later silent unanswered
    cases later with
    | left gone few => exact .left gone (by rwa [Button.resolve, List.length_modify])
    | loading decided =>
      cases i with
      | zero => exact @Phase.loading _ b _ _ (some (.error message)) trivial
      | succ i =>
        rw [resolve_beyond (Nat.le_add_left 1 i)]
        exact .loading decided
    | resting told =>
      rw [resolve_beyond (Nat.zero_le i)]
      exact .resting told
    | toggling told decided =>
      cases i with
      | zero => exact @Phase.toggling _ b _ _ _ (some (.error message)) told trivial
      | succ i =>
        rw [resolve_beyond (Nat.le_add_left 1 i)]
        exact .toggling told decided
  | settle ended =>
    cases phase with
    | left gone few =>
      rw [Button.settle, if_pos gone]
      exact .left gone (Nat.le_trans (List.length_eraseIdx_le _ _) few)
    | loading decided =>
      obtain ⟨rfl, same⟩ := single ended
      cases same
      exact .resting (told_next told_signedOut decided noted)
    | resting told => cases ended
    | @toggling _ _ liked _ told decided =>
      obtain ⟨rfl, same⟩ := single ended
      cases same
      cases liked <;> exact .resting (told_next told decided noted)
  | dispose =>
    cases phase with
    | left gone few => exact .left rfl few
    | loading decided => exact .left rfl (Nat.le_refl 1)
    | resting told => exact .left rfl (Nat.zero_le 1)
    | toggling told decided => exact .left rfl (Nat.le_refl 1)

end Phases

section Runs
variable {table : Table} {guard : Guard State Input (Option Note)} {past : Past} {state : State} {b : Nat} {button : Button}

theorem phase_of_run (run : (machine table).Run guard ⟨table, []⟩ past state) :
    ∀ b button, state.buttons[b]? = some button → Phase past b button := by
  apply run.invariant fun past state => ∀ b button, state.buttons[b]? = some button → Phase past b button
  · intro b button found
    cases found
  · intro past state input _ _ phases b button' found
    rcases step_button found with ⟨button, known, moves⟩ | ⟨kind, targetId, quiet, rfl⟩
    · exact (phases b button known).step moves
    · exact @Phase.loading _ b kind targetId none trivial

/-- However often and whenever buttons are clicked, each has at most one call on its way.
While it is there, `pending` is set exactly for the call of a click, and nothing is shown
before the first one has ended. -/
theorem one_call_each (run : (machine table).Run guard ⟨table, []⟩ past state) (found : state.buttons[b]? = some button) :
    button.calls.length ≤ 1 ∧ (button.disposed = false →
      (button.pending = true ↔ ∃ call ∈ button.calls, call.method ≠ .get) ∧
      (button.state = none ↔ ∃ call ∈ button.calls, call.method = .get)) := by
  cases phase_of_run run b button found with
  | left gone few => exact ⟨few, fun here => Bool.noConfusion (here.symm.trans gone)⟩
  | loading _ => simp
  | resting _ => simp
  | @toggling _ _ liked _ _ _ => cases liked <;> simp

/-- At rest a button shows what the table held right after its last answer was made, the
one of its last call to be served before an answer arrived; what it sent since has failed.
So it shows what the table holds, unless the row has been changed since. The row is that
of the id as it is stored, which is the button's own up to 2^53. -/
theorem rest_tells (run : (machine table).Run guard ⟨table, []⟩ past state) (found : state.buttons[b]? = some button)
    (alive : button.disposed = false) (rest : button.calls = []) {liked : Bool} (shown : button.state = some (.told liked)) :
    (∃ since service early address, past = since ++ service :: early ∧
      service.output = some (.served b (some address) (.liked liked)) ∧
      (Stored address button.kind (asF64 button.targetId) service.after.table ↔ liked = true) ∧
      (∃ late arrival middle, since = late ++ arrival :: middle ∧ arrival.output = some (.arrived b (.ok (.liked liked))) ∧
        (∀ event ∈ middle, Silent b event.output) ∧ ∀ event ∈ late, Unanswered b event.output) ∧
      ((∀ event ∈ since, Stored address button.kind (asF64 button.targetId) event.before.table ↔
          Stored address button.kind (asF64 button.targetId) event.after.table) →
        (Stored address button.kind (asF64 button.targetId) state.table ↔ liked = true))) ∧
    (button.targetId.natAbs ≤ 2 ^ 53 → asF64 button.targetId = button.targetId) := by
  refine ⟨?_, asF64_of_small⟩
  cases phase_of_run run b button found with
  | left gone _ => exact Bool.noConfusion (alive.symm.trans gone)
  | loading _ => cases rest
  | @resting kind targetId _ told =>
    obtain ⟨late, arrival, before, rfl, arrived, ⟨middle, service, early, address, rfl, served, stored, silent⟩, unanswered⟩ :=
      told liked (Option.some.inj shown)
    rw [← List.cons_append, ← List.append_assoc] at run ⊢
    refine ⟨late ++ arrival :: middle, service, early, address, rfl, served, stored,
      ⟨late, arrival, middle, rfl, arrived, silent, unanswered⟩, fun unchanged => ?_⟩
    apply run.since (fun state => Stored address kind (asF64 targetId) state.table ↔ liked = true) stored
    intro later next earlier split holds
    have member : next ∈ late ++ arrival :: middle := by
      rw [split]
      exact List.mem_append_right later List.mem_cons_self
    exact (unchanged next member).symm.trans holds
  | toggling _ _ => cases rest

end Runs

section Example

/-- A double click, whose call gets through without an answer, and another click. -/
def clicks : List Input :=
  [.mount "image" 7, .serve 0 0 (some "0x00") 10 .done, .settle 0 0, .click 0, .click 0, .serve 0 0 (some "0x00") 20 .done,
    .lose 0 0 "Failed to fetch", .settle 0 0, .click 0, .serve 0 0 (some "0x00") 30 .done, .settle 0 0]

theorem one_call_each_double :
    let run := (machine .empty).play ([], ⟨.empty, []⟩) (clicks.take 5)
    ∃ button, run.2.buttons[0]? = some button ∧ button.calls.length ≤ 1 ∧ button.pending = true := by
  intro run
  have ran : (machine .empty).Run (fun _ _ _ => True) ⟨.empty, []⟩ run.1 run.2 :=
    Machine.Run.start.play _ (Machine.permitted_always (fun _ _ _ => trivial) ..)
  have clicked : run.2.buttons[0]? =
      some ⟨"image", 7, some .liked, true, false, [⟨.post, .notLiked, none⟩]⟩ := by decide +kernel
  obtain ⟨few, pending⟩ := one_call_each ran clicked
  exact ⟨_, clicked, few, (pending rfl).1.mpr ⟨_, List.mem_singleton_self _, by decide⟩⟩

theorem rest_tells_double :
    let run := (machine .empty).play ([], ⟨.empty, []⟩) clicks
    ∃ since service early address, run.1 = since ++ service :: early ∧
      service.output = some (.served 0 (some address) (.liked true)) ∧ Stored address "image" 7 service.after.table := by
  intro run
  have ran : (machine .empty).Run (fun _ _ _ => True) ⟨.empty, []⟩ run.1 run.2 :=
    Machine.Run.start.play _ (Machine.permitted_always (fun _ _ _ => trivial) ..)
  have shown : run.2.buttons[0]? = some ⟨"image", 7, some (.told true), false, false, []⟩ := by decide +kernel
  obtain ⟨⟨since, service, early, address, split, served, stored, _⟩, same⟩ := rest_tells ran shown rfl rfl rfl
  rw [same (by decide)] at stored
  exact ⟨since, service, early, address, split, served, stored.mpr rfl⟩

end Example
end LetsEmbed.LikeButton
