import LetsEmbed.Systems.Isolation

/-! A statement that runs while no other does. Its snapshot is all there is, so what it
inserts are exactly the keys it wants that have no row yet, and it can always end if
every key it wants can be stored. -/

namespace Systems.Isolation
variable {P K V L : Type} [DecidableEq K]

/-- Whatever is picked for a key that is wanted, the key is stored as it is. -/
def Verbatim (statement : Statement P K V L) (asked : P) : Prop :=
  ∀ key ∈ statement.wanted asked, (∃ value row, statement.stored asked key value = some row) ∧
    ∀ value row, statement.stored asked key value = some row → row.1 = key

def Idle (s : State P K V L) : Prop := ∀ session ∈ s.sessions, session.committed = true

/-- What has happened when a session on top of an idle state has done some inserts. -/
structure Running (statement : Statement P K V L) (s : State P K V L) (asked : P) (t : State P K V L)
    (session : Session P K V) : Prop where
  sessions : t.sessions = s.sessions ++ [session]
  rows : t.rows = s.rows
  links : t.links = s.links
  input : session.input = asked
  snapshot : session.snapshot = s.rows
  uncommitted : session.committed = false
  wanted : ∀ key ∈ session.pending, key ∈ statement.wanted asked
  sees : ∀ key ∈ statement.wanted asked, key ∈ session.pending ∨ has session.returned key = true ∨ has s.rows key = true
  grows : s.nextId ≤ t.nextId
  ids : ∀ row ∈ session.returned, s.nextId ≤ row.id ∧ row.id < t.nextId
  distinct : (session.returned.map (·.id)).Nodup ∧ (session.returned.map (·.key)).Nodup
  new : ∀ row ∈ session.returned, row.key ∈ statement.wanted asked ∧ has s.rows row.key = false ∧
    ∃ value, statement.stored asked row.key value = some (row.key, row.value)

section Steps
variable {statement : Statement P K V L} {s t : State P K V L} {asked : P} {session : Session P K V} {key : K} {value : V}

theorem running_start : Running statement s asked (s.start statement asked) ⟨asked, s.rows, [], statement.wanted asked, false⟩ where
  sessions := rfl
  rows := rfl
  links := rfl
  input := rfl
  snapshot := rfl
  uncommitted := rfl
  wanted _ := id
  sees _ := .inl
  grows := Nat.le_refl _
  ids _ member := by cases member
  distinct := ⟨List.nodup_nil, List.nodup_nil⟩
  new _ member := by cases member

theorem Running.top (running : Running statement s asked t session) : t.sessions[s.sessions.length]? = some session := by
  rw [running.sessions, List.getElem?_append_right (Nat.le_refl _), Nat.sub_self]
  rfl

/-- Nobody else holds a lock. -/
theorem Running.unlocked (running : Running statement s asked t session) (idle : Idle s) (key : K) :
    t.locked s.sessions.length key = false := by
  rw [State.locked, List.any_eq_false]
  intro other bounded blocked
  rw [Bool.and_eq_true, decide_eq_true_iff] at blocked
  obtain ⟨apart, held⟩ := blocked
  rw [List.mem_range, running.sessions, List.length_append, List.length_singleton] at bounded
  have below : other < s.sessions.length := by omega
  rw [running.sessions, List.getElem?_append_left below, List.getElem?_eq_getElem below] at held
  simp [idle _ (List.getElem_mem below)] at held

theorem Running.attempt (running : Running statement s asked t session) (idle : Idle s) (waits : key ∈ session.pending)
    (verbatim : Verbatim statement asked) {row : K × V} (stored : statement.stored asked key value = some row) :
    t.attempt statement s.sessions.length key value = some (session, key, row.2) := by
  obtain ⟨key', value'⟩ := row
  cases (verbatim key (running.wanted key waits)).2 value _ stored
  rw [State.attempt, running.top, Option.bind_some, running.input, stored, Option.bind_some, running.unlocked idle]
  simp [running.uncommitted, waits]

theorem stored_of_attempt {i : Nat} {found : Session P K V} {row : K × V}
    (attempted : t.attempt statement i key value = some (found, row)) : statement.stored found.input key value = some row := by
  obtain ⟨session, _, rest⟩ := Option.bind_eq_some_iff.mp attempted
  obtain ⟨row, stored, enabled⟩ := Option.bind_eq_some_iff.mp rest
  rw [Option.ite_none_right_eq_some] at enabled
  cases enabled.2
  exact stored

theorem Running.set (running : Running statement s asked t session) (session' : Session P K V) :
    t.sessions.set s.sessions.length session' = s.sessions ++ [session'] := by
  rw [running.sessions, List.set_append_right _ _ (Nat.le_refl _), Nat.sub_self]
  rfl

/-- One insert less to come; its key has a row. -/
theorem Running.sees_erase (running : Running statement s asked t session) {returned : List (Row K V)}
    (kept : ∀ row ∈ session.returned, row ∈ returned) (seen : has returned key = true ∨ has s.rows key = true) :
    ∀ wanted ∈ statement.wanted asked,
      wanted ∈ session.pending.erase key ∨ has returned wanted = true ∨ has s.rows wanted = true := by
  intro wanted member
  by_cases same : wanted = key
  · rw [same]
    exact .inr seen
  · cases running.sees wanted member with
    | inl waits => exact .inl ((List.mem_erase_of_ne same).mpr waits)
    | inr there =>
      refine .inr (there.imp_left fun own => ?_)
      obtain ⟨row, inside, named⟩ := has_iff.mp own
      exact has_iff.mpr ⟨row, kept row inside, named⟩

/-- What one insert does to a session that runs alone. -/
theorem running_insert (running : Running statement s asked t session) (verbatim : Verbatim statement asked) (key : K) (value : V) :
    ∃ session', Running statement s asked (t.insert statement s.sessions.length key value) session' ∧
      (t.attempt statement s.sessions.length key value ≠ none → session'.pending = session.pending.erase key) := by
  rw [State.insert]
  cases attempted : t.attempt statement s.sessions.length key value with
  | none => exact ⟨session, running, fun made => (made rfl).elim⟩
  | some attempt =>
    obtain ⟨found, key', value'⟩ := attempt
    obtain ⟨here, _, waits⟩ := attempt_eq_some attempted
    have stored := stored_of_attempt attempted
    cases running.top.symm.trans here
    rw [running.input] at stored
    have wanted := running.wanted key waits
    cases (verbatim key wanted).2 value _ stored
    have pending : ∀ later ∈ session.pending.erase key', later ∈ statement.wanted asked := fun later member =>
      running.wanted later (List.mem_of_mem_erase member)
    dsimp only
    split
    next conflict =>
      rw [Bool.or_eq_true, running.rows] at conflict
      refine ⟨{ session with pending := session.pending.erase key' }, ?_, fun _ => rfl⟩
      exact { running with
        sessions := running.set _
        wanted := pending
        sees := running.sees_erase (fun _ => id) conflict.symm }
    next free =>
      rw [Bool.or_eq_true, running.rows, not_or, Bool.not_eq_true, Bool.not_eq_true] at free
      refine ⟨{ session with
        pending := session.pending.erase key'
        returned := session.returned ++ [⟨t.nextId, key', value'⟩] }, ?_, fun _ => rfl⟩
      have unseen : key' ∉ session.returned.map (·.key) := by
        intro member
        obtain ⟨row, inside, named⟩ := List.mem_map.mp member
        rw [has_iff.mpr ⟨row, inside, named⟩] at free
        cases free.2
      have unused : t.nextId ∉ session.returned.map (·.id) := by
        intro member
        obtain ⟨row, inside, same⟩ := List.mem_map.mp member
        exact Nat.lt_irrefl _ (same ▸ (running.ids row inside).2)
      exact { running with
        sessions := running.set _
        wanted := pending
        sees := running.sees_erase (fun _ => List.mem_append_left _)
          (.inl (has_iff.mpr ⟨_, List.mem_append_right _ (List.mem_singleton_self _), rfl⟩))
        grows := Nat.le_succ_of_le running.grows
        ids := by
          intro row member
          cases List.mem_append.mp member with
          | inl old => exact ⟨(running.ids row old).1, Nat.lt_succ_of_lt (running.ids row old).2⟩
          | inr new =>
            rw [List.mem_singleton.mp new]
            exact ⟨running.grows, Nat.lt_succ_self _⟩
        distinct := by
          rw [List.map_append, List.map_append]
          exact ⟨running.distinct.1.append (List.nodup_singleton _) (List.disjoint_singleton.mpr unused),
            running.distinct.2.append (List.nodup_singleton _) (List.disjoint_singleton.mpr unseen)⟩
        new := by
          intro row member
          cases List.mem_append.mp member with
          | inl old => exact running.new row old
          | inr new =>
            rw [List.mem_singleton.mp new]
            exact ⟨wanted, free.1, value, stored⟩ }

end Steps

section Runs
variable [DecidableEq L]

def State.run (statement : Statement P K V L) (s : State P K V L) (inputs : List (Input P K V)) : State P K V L :=
  inputs.foldl (fun s input => (s.step statement input).2) s

/-- One session from its start to its end, with its inserts in any order. -/
def State.alone (statement : Statement P K V L) (s : State P K V L) (asked : P) (inserts : List (K × V)) : State P K V L :=
  s.run statement (.start asked :: inserts.map (fun insert => .insert s.sessions.length insert.1 insert.2) ++
    [.commit s.sessions.length])

def Alone (statement : Statement P K V L) (s : State P K V L) (asked : P) (s' : State P K V L) : Prop :=
  ∃ inserts, s' = s.alone statement asked inserts ∧ s'.sessions[s.sessions.length]?.any (·.committed) = true

/-- What a statement that ran alone leaves behind, beside what was there. -/
structure Done (statement : Statement P K V L) (s : State P K V L) (asked : P) (s' : State P K V L)
    (returned : List (Row K V)) : Prop where
  rows : s'.rows = s.rows ++ returned
  links : s'.links = s.links ++ (statement.links asked returned s.rows).dedup.filter (· ∉ s.links)
  idle : Idle s'
  grows : s.nextId ≤ s'.nextId
  ids : ∀ row ∈ returned, s.nextId ≤ row.id ∧ row.id < s'.nextId
  distinct : (returned.map (·.id)).Nodup ∧ (returned.map (·.key)).Nodup
  new : ∀ row ∈ returned, row.key ∈ statement.wanted asked ∧ has s.rows row.key = false ∧
    ∃ value, statement.stored asked row.key value = some (row.key, row.value)
  complete : ∀ key ∈ statement.wanted asked, has returned key = true ∨ has s.rows key = true

variable {statement : Statement P K V L} {start s t s' : State P K V L} {asked : P} {session : Session P K V}

theorem run_append {first later : List (Input P K V)} : s.run statement (first ++ later) = (s.run statement first).run statement later :=
  List.foldl_append

theorem play_eq_run (start : State P K V L) (past : List (Event (State P K V L) (Input P K V) Unit)) (inputs : List (Input P K V)) :
    ((machine statement start).play (past, s) inputs).2 = s.run statement inputs := by
  induction inputs generalizing past s with
  | nil => rfl
  | cons input rest ih => exact ih _

/-- It is one of the runs of all statements together. -/
theorem Alone.reached (alone : Alone statement s asked s') :
    ∃ past, (machine statement start).Run (fun _ _ _ => True) s past s' := by
  obtain ⟨inserts, rfl, _⟩ := alone
  rw [State.alone, ← play_eq_run start []]
  exact ⟨_, Machine.Run.start.play _ (Machine.permitted_always (fun _ _ _ => trivial) _ _)⟩

theorem running_inserts (running : Running statement s asked t session) (verbatim : Verbatim statement asked)
    (inserts : List (K × V)) : ∃ session', Running statement s asked
      (t.run statement (inserts.map fun insert => .insert s.sessions.length insert.1 insert.2)) session' := by
  induction inserts generalizing t session with
  | nil => exact ⟨session, running⟩
  | cons insert inserts ih =>
    obtain ⟨next, goes, _⟩ := running_insert running verbatim insert.1 insert.2
    exact ih goes

/-- Every key has a row by then. -/
theorem running_commit (running : Running statement s asked t session) (idle : Idle s) (finished : session.pending = []) :
    Done statement s asked (t.commit statement s.sessions.length) session.returned := by
  have committed : t.commit statement s.sessions.length =
      { t with
        rows := s.rows ++ session.returned
        links := s.links ++ (statement.links asked session.returned s.rows).dedup.filter (· ∉ s.links)
        sessions := s.sessions ++ [{ session with committed := true }] } := by
    rw [State.commit, running.top]
    simp [running.uncommitted, finished, running.rows, running.links, running.input, running.snapshot, running.set]
  rw [committed]
  exact {
    rows := rfl
    links := rfl
    idle := by
      intro other member
      cases List.mem_append.mp member with
      | inl old => exact idle other old
      | inr new => rw [List.mem_singleton.mp new]
    grows := running.grows
    ids := running.ids
    distinct := running.distinct
    new := running.new
    complete := by
      intro key wanted
      cases running.sees key wanted with
      | inl waits =>
        rw [finished] at waits
        cases waits
      | inr there => exact there }

/-- Nothing happens at a commit that comes too early. -/
theorem commit_early (running : Running statement s asked t session) (waits : session.pending ≠ []) :
    t.commit statement s.sessions.length = t := by
  rw [State.commit, running.top]
  exact if_pos (Bool.or_eq_true_iff.mpr (.inr (decide_eq_true waits)))

theorem alone_eq (inserts : List (K × V)) : s.alone statement asked inserts =
    ((s.start statement asked).run statement (inserts.map fun insert => .insert s.sessions.length insert.1 insert.2)).commit
      statement s.sessions.length :=
  run_append

theorem done_of_alone (verbatim : Verbatim statement asked) (alone : Alone statement s asked s') (idle : Idle s) :
    ∃ returned, Done statement s asked s' returned := by
  obtain ⟨inserts, rfl, committed⟩ := alone
  obtain ⟨session, running⟩ := running_inserts (running_start (s := s)) verbatim inserts
  rw [alone_eq] at committed ⊢
  by_cases finished : session.pending = []
  · exact ⟨_, running_commit running idle finished⟩
  · rw [commit_early running finished, running.top, Option.any_some, running.uncommitted] at committed
    cases committed

/-- What is pending can be inserted, one key after another. -/
theorem running_finish (running : Running statement s asked t session) (verbatim : Verbatim statement asked) (idle : Idle s) :
    ∃ (inserts : List (K × V)) (session' : Session P K V), Running statement s asked
      (t.run statement (inserts.map fun insert => .insert s.sessions.length insert.1 insert.2)) session' ∧
      session'.pending = [] := by
  induction waiting : session.pending generalizing t session with
  | nil => exact ⟨[], session, running, waiting⟩
  | cons key later ih =>
    have waits : key ∈ session.pending := waiting ▸ List.mem_cons_self
    obtain ⟨value, row, stored⟩ := (verbatim key (running.wanted key waits)).1
    obtain ⟨next, goes, erased⟩ := running_insert running verbatim key value
    have left : next.pending = later := by
      rw [erased (by simp [running.attempt idle waits verbatim stored]), waiting, List.erase_cons_head]
    obtain ⟨inserts, last, ends, finished⟩ := ih goes left
    exact ⟨(key, value) :: inserts, last, ends, finished⟩

/-- A statement on its own can always be run. -/
theorem exists_alone (verbatim : Verbatim statement asked) (idle : Idle s) : ∃ s', Alone statement s asked s' := by
  obtain ⟨inserts, session, running, finished⟩ := running_finish (running_start (s := s)) verbatim idle
  refine ⟨_, inserts, rfl, ?_⟩
  rw [alone_eq, State.commit, running.top]
  simp [running.uncommitted, finished, running.set]

/-! ## One after another -/

def Successive (statement : Statement P K V L) : State P K V L → List P → State P K V L → Prop
  | s, [], s' => s' = s
  | s, asked :: later, s' => ∃ next, Alone statement s asked next ∧ Successive statement next later s'

end Runs

end Systems.Isolation
