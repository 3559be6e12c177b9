import Mathlib.Data.List.Dedup
import LetsEmbed.Systems.Machine

/-! Statements side by side under READ COMMITTED. Each reads the rows as of its
start, inserts the keys it wants where no row of that key exists, after waiting
for whoever is inserting it, and links what it has seen: its snapshot and the
rows its own inserts returned. -/

namespace Systems.Isolation

structure Row (K V : Type) where
  id : Nat
  key : K
  value : V
  deriving DecidableEq

/-- What a statement does with its input: the keys it inserts, the row stored for
one of them with a value picked for it, unless that is an error, and the links
between rows returned and rows of the snapshot. -/
structure Statement (P K V L : Type) where
  wanted : P → List K
  stored : P → K → V → Option (K × V)
  links : P → (returned snapshot : List (Row K V)) → List L

structure Session (P K V : Type) where
  input : P
  snapshot : List (Row K V)
  returned : List (Row K V)
  pending : List K
  committed : Bool

/-- What is committed, and the statements that ran or are running. -/
structure State (P K V L : Type) where
  rows : List (Row K V)
  links : List L
  nextId : Nat
  sessions : List (Session P K V)

inductive Input (P K V : Type) where
  | start (input : P)
  | insert (session : Nat) (key : K) (value : V)
  | commit (session : Nat)

variable {P K V L : Type} [DecidableEq K]

def has (rows : List (Row K V)) (key : K) : Bool := rows.any (·.key = key)

namespace State
variable (statement : Statement P K V L) (s : State P K V L)

/-- Somebody else has inserted the key and not committed yet. -/
def locked (session : Nat) (key : K) : Bool :=
  (List.range s.sessions.length).any fun other =>
    other ≠ session && s.sessions[other]?.any fun found => !found.committed && has found.returned key

/-- The session and the row of an insert that need not wait. -/
def attempt (session : Nat) (key : K) (value : V) : Option (Session P K V × K × V) :=
  s.sessions[session]?.bind fun found => (statement.stored found.input key value).bind fun row =>
    if !found.committed && key ∈ found.pending && !s.locked session row.1 then some (found, row) else none

def start (input : P) : State P K V L :=
  { s with sessions := s.sessions ++ [⟨input, s.rows, [], statement.wanted input, false⟩] }

/-- `ON CONFLICT DO NOTHING`: a row of the key keeps the insert from returning one. -/
def insert (session : Nat) (key : K) (value : V) : State P K V L :=
  match s.attempt statement session key value with
  | none => s
  | some (found, key', value') =>
    if has s.rows key' || has found.returned key' then
      { s with sessions := s.sessions.set session { found with pending := found.pending.erase key } }
    else
      { s with
        nextId := s.nextId + 1
        sessions := s.sessions.set session
          { found with pending := found.pending.erase key, returned := found.returned ++ [⟨s.nextId, key', value'⟩] } }

def commit [DecidableEq L] (session : Nat) : State P K V L :=
  match s.sessions[session]? with
  | none => s
  | some found =>
    if found.committed || found.pending ≠ [] then s
    else
      let links := statement.links found.input found.returned found.snapshot
      { s with
        rows := s.rows ++ found.returned
        links := s.links ++ links.dedup.filter (· ∉ s.links)
        sessions := s.sessions.set session { found with committed := true } }

def step [DecidableEq L] (s : State P K V L) : Input P K V → Unit × State P K V L
  | .start input => ((), s.start statement input)
  | .insert session key value => ((), s.insert statement session key value)
  | .commit session => ((), s.commit statement session)

end State

def machine [DecidableEq L] (statement : Statement P K V L) (start : State P K V L) : Machine (State P K V L) (Input P K V) Unit :=
  ⟨start, State.step statement⟩

/-- An insert stores the key it wants, and a row that keeps it from doing so was
there when its statement started. -/
def foreseen (statement : Statement P K V L) : Guard (State P K V L) (Input P K V) Unit := fun _ s input =>
  match input with
  | .insert session key value => ∀ found ∈ s.attempt statement session key value,
      found.2.1 = key ∧ (has s.rows key = true → has found.1.snapshot key = true)
  | _ => True

instance (statement : Statement P K V L) (past s input) : Decidable (foreseen statement past s input) :=
  match input with
  | .start _ | .commit _ => .isTrue trivial
  | .insert _ _ _ => inferInstanceAs (Decidable (∀ found ∈ _, _ ∧ (_ → _)))

/-! ## What sessions have seen -/

section Rows
variable {rows more : List (Row K V)} {row : Row K V} {key : K}

theorem has_iff : has rows key = true ↔ ∃ row ∈ rows, row.key = key := by
  rw [has, List.any_eq_true]
  exact exists_congr fun row => and_congr_right fun _ => decide_eq_true_iff

theorem has_append : has (rows ++ more) key = (has rows key || has more key) := List.any_append

end Rows

/-- A key is still to be inserted, or there is a row of it to link. -/
def Session.Sees (session : Session P K V) (key : K) : Prop :=
  key ∈ session.pending ∨ has (session.returned ++ session.snapshot) key = true

/-- What a session wants is pending or seen; what it has seen and linked is
committed as far as it should be. -/
structure Kept (statement : Statement P K V L) (s : State P K V L) (session : Session P K V) : Prop where
  sees : ∀ key ∈ statement.wanted session.input, session.Sees key
  snapshot : ∀ row ∈ session.snapshot, row ∈ s.rows
  done : session.committed = true → session.pending = [] ∧ (∀ row ∈ session.returned, row ∈ s.rows) ∧
    ∀ link ∈ statement.links session.input session.returned session.snapshot, link ∈ s.links

section Steps
variable {statement : Statement P K V L} {s late : State P K V L} {session found : Session P K V} {i : Nat} {key key' : K}
  {value value' : V}

theorem Kept.mono (kept : Kept statement s session) (rows : ∀ row ∈ s.rows, row ∈ late.rows)
    (links : ∀ link ∈ s.links, link ∈ late.links) : Kept statement late session := by
  refine ⟨kept.sees, fun row member => rows row (kept.snapshot row member), fun committed => ?_⟩
  obtain ⟨finished, returned, linked⟩ := kept.done committed
  exact ⟨finished, fun row member => rows row (returned row member), fun link member => links link (linked link member)⟩

theorem attempt_eq_some (attempted : s.attempt statement i key value = some (found, key', value')) :
    s.sessions[i]? = some found ∧ found.committed = false ∧ key ∈ found.pending := by
  obtain ⟨session, here, rest⟩ := Option.bind_eq_some_iff.mp attempted
  obtain ⟨row, _, enabled⟩ := Option.bind_eq_some_iff.mp rest
  rw [Option.ite_none_right_eq_some] at enabled
  obtain ⟨allowed, same⟩ := enabled
  cases same
  simp only [Bool.and_eq_true, Bool.not_eq_true', decide_eq_true_eq] at allowed
  exact ⟨here, allowed.1.1, allowed.1.2⟩

/-- One insert less to come, and its row seen. -/
theorem Session.Sees.insert {returned : List (Row K V)} {wanted : K} (sees : found.Sees wanted)
    (grown : ∀ row ∈ found.returned, row ∈ returned) (seen : has (returned ++ found.snapshot) key = true) :
    Session.Sees { found with pending := found.pending.erase key, returned := returned } wanted := by
  rcases sees with waiting | here
  · by_cases same : wanted = key
    · rw [same]
      exact .inr seen
    · exact .inl ((List.mem_erase_of_ne same).mpr waiting)
  · refine .inr ?_
    obtain ⟨row, member, named⟩ := has_iff.mp here
    apply has_iff.mpr
    refine ⟨row, ?_, named⟩
    rcases List.mem_append.mp member with returned | snapshot
    · exact List.mem_append_left _ (grown row returned)
    · exact List.mem_append_right _ snapshot

theorem kept_insert (kept : ∀ session ∈ s.sessions, Kept statement s session)
    (seen : ∀ found ∈ s.attempt statement i key value,
      found.2.1 = key ∧ (has s.rows key = true → has found.1.snapshot key = true)) :
    ∀ session ∈ (s.insert statement i key value).sessions, Kept statement (s.insert statement i key value) session := by
  intro session member
  rw [State.insert] at member ⊢
  cases attempted : s.attempt statement i key value with
  | none =>
    rw [attempted] at member
    exact kept session member
  | some attempt =>
    obtain ⟨found, key', value'⟩ := attempt
    obtain ⟨here, uncommitted, _⟩ := attempt_eq_some attempted
    obtain ⟨rfl, foreseen⟩ := seen _ attempted
    have before := kept found (List.mem_of_getElem? here)
    rw [attempted] at member
    dsimp only at member ⊢
    by_cases conflict : (has s.rows key' || has found.returned key') = true
    · rw [if_pos conflict] at member ⊢
      rcases List.mem_or_eq_of_mem_set member with old | rfl
      · exact (kept session old).mono (fun _ => id) fun _ => id
      · refine ⟨fun wanted listed => ?_, before.snapshot, fun committed => ?_⟩
        · apply (before.sees wanted listed).insert fun _ => id
          rw [has_append, Bool.or_eq_true]
          rcases Bool.or_eq_true_iff.mp conflict with taken | own
          · exact .inr (foreseen taken)
          · exact .inl own
        · cases uncommitted.symm.trans committed
    · rw [if_neg conflict] at member ⊢
      rcases List.mem_or_eq_of_mem_set member with old | rfl
      · exact (kept session old).mono (fun _ => id) fun _ => id
      · refine ⟨fun wanted listed => ?_, before.snapshot, fun committed => ?_⟩
        · apply (before.sees wanted listed).insert fun row member => List.mem_append_left _ member
          rw [has_iff]
          exact ⟨_, List.mem_append_left _ (List.mem_append_right _ (List.mem_singleton_self _)), rfl⟩
        · cases uncommitted.symm.trans committed

theorem kept_start (kept : ∀ session ∈ s.sessions, Kept statement s session) (input : P) :
    ∀ session ∈ (s.start statement input).sessions, Kept statement (s.start statement input) session := by
  intro session member
  rcases List.mem_append.mp member with before | new
  · exact (kept session before).mono (fun _ => id) fun _ => id
  · rw [List.mem_singleton.mp new]
    refine ⟨fun key wanted => .inl wanted, fun _ => id, fun committed => ?_⟩
    cases committed

theorem kept_commit [DecidableEq L] (kept : ∀ session ∈ s.sessions, Kept statement s session) (i : Nat) :
    ∀ session ∈ (s.commit statement i).sessions, Kept statement (s.commit statement i) session := by
  intro session member
  rw [State.commit] at member ⊢
  cases here : s.sessions[i]? with
  | none =>
    rw [here] at member
    exact kept session member
  | some found =>
    rw [here] at member
    dsimp only at member ⊢
    by_cases idle : (found.committed || found.pending ≠ []) = true
    · rw [if_pos idle] at member ⊢
      exact kept session member
    · rw [if_neg idle] at member ⊢
      rw [Bool.not_eq_true, Bool.or_eq_false_iff, decide_eq_false_iff_not, not_not] at idle
      have finished := idle.2
      rcases List.mem_or_eq_of_mem_set member with old | rfl
      · exact (kept session old).mono (fun _ => List.mem_append_left _) fun _ => List.mem_append_left _
      · have before := kept found (List.mem_of_getElem? here)
        refine ⟨before.sees, fun row member => List.mem_append_left _ (before.snapshot row member), fun _ => ?_⟩
        refine ⟨finished, fun row member => List.mem_append_right _ member, fun link member => ?_⟩
        by_cases known : link ∈ s.links
        · exact List.mem_append_left _ known
        · apply List.mem_append_right
          rw [List.mem_filter, List.mem_dedup]
          exact ⟨member, decide_eq_true known⟩

end Steps

/-- Where every conflict was foreseen, a committed session has seen a row of every
key it wanted, and its links are there. -/
theorem kept_of_run [DecidableEq L] {statement : Statement P K V L} {start state : State P K V L}
    {past : List (Event (State P K V L) (Input P K V) Unit)} (idle : start.sessions = [])
    (run : (machine statement start).Run (foreseen statement) start past state) :
    ∀ session ∈ state.sessions, Kept statement state session := by
  apply run.invariant fun _ state => ∀ session ∈ state.sessions, Kept statement state session
  · intro session member
    rw [idle] at member
    cases member
  · intro past s input _ seen kept
    cases input with
    | start input => exact kept_start kept input
    | insert session key value => exact kept_insert kept seen
    | commit session => exact kept_commit kept session

theorem seen_of_kept {statement : Statement P K V L} {s : State P K V L} {session : Session P K V} {key : K}
    (kept : Kept statement s session) (committed : session.committed = true)
    (wanted : key ∈ statement.wanted session.input) :
    ∃ row ∈ session.returned ++ session.snapshot, row.key = key ∧ row ∈ s.rows := by
  obtain ⟨finished, returned, _⟩ := kept.done committed
  rcases kept.sees key wanted with waiting | here
  · rw [finished] at waiting
    cases waiting
  · obtain ⟨row, member, named⟩ := has_iff.mp here
    refine ⟨row, member, named, ?_⟩
    rcases List.mem_append.mp member with own | old
    · exact returned row own
    · exact kept.snapshot row old

end Systems.Isolation
