import LetsEmbed.Systems.Pool

/-! Pools whose threads differ in what they may do: each keeps to the discipline of the
request it was launched for. And programs that know only some of a pool's commands. -/

namespace Systems

namespace Program
variable {C D A : Type} {S : D → Type}

/-- The same program where its commands are some of those there are. -/
def within (f : C → D) : Program C (fun command => S (f command)) A → Program D S A
  | .pure value => .pure value
  | .call command next => .call (f command) fun reply => (next reply).within f

def lift (f : C → D) (exchange : Exchange C fun command => S (f command)) : Exchange D S := ⟨f exchange.1, exchange.2⟩

theorem wp_within {f : C → D} {asks : List (Exchange D S) → D → Prop} {post : List (Exchange D S) → A → Prop}
    {program : Program C (fun command => S (f command)) A} {past : List (Exchange C fun command => S (f command))}
    (holds : program.wp (recording fun past command => asks (past.map (lift f)) (f command))
      (fun past value => post (past.map (lift f)) value) past) :
    (program.within f).wp (recording asks) post (past.map (lift f)) := by
  induction program generalizing past with
  | pure value => exact holds
  | call command next ih => exact ⟨holds.1, fun reply _ => ih reply (holds.2 reply trivial)⟩

theorem wp_within_start (f : C → D) (asks : List (Exchange D S) → D → Prop) {post : List (Exchange D S) → A → Prop}
    {program : Program C (fun command => S (f command)) A}
    (holds : program.wp (recording fun past command => asks (past.map (lift f)) (f command))
      (fun past value => post (past.map (lift f)) value) []) : (program.within f).wp (recording asks) post [] :=
  @wp_within C D A S f asks post program [] holds

theorem wp_map {B : Type} {P : Type} {protocol : Protocol D S P} {post : P → B → Prop} {p : P} (f : A → B)
    (program : Program D S A) : (f <$> program).wp protocol post p ↔ program.wp protocol (fun p value => post p (f value)) p :=
  wp_bind program fun value => pure (f value)

end Program

namespace Pool
variable {C A W Q X : Type} {R : C → Type} {serve : W → (command : C) → X → R command × W} {launch : Q → Program C R A}
  {start : W} {past early late : Past C R A W Q X} {pool : Pool C R A W} {i : Nat}
  {guard : Guard (Pool C R A W) (Turn Q X) (Option (Served C R W X))}
  {event : Event (Pool C R A W) (Turn Q X) (Option (Served C R W X))} {served : Served C R W X}

def Turn.request : Turn Q X → Option Q
  | .spawn request => some request
  | .advance _ _ => none

/-- What the threads were launched for, in their order. -/
def requests (past : Past C R A W Q X) : List Q := past.reverse.filterMap fun event => Turn.request event.input

theorem requests_cons : requests (event :: past) = requests past ++ (Turn.request event.input).toList := by
  rw [requests, List.reverse_cons, List.filterMap_append]
  congr 1

theorem requests_append : requests (late ++ early) = requests early ++ requests late := by
  rw [requests, List.reverse_append, List.filterMap_append]
  rfl

theorem requests_mono {request : Q} (known : (requests early)[i]? = some request) :
    (requests (late ++ early))[i]? = some request := by
  rw [requests_append, List.getElem?_append_left (List.getElem?_eq_some_iff.mp known).1]
  exact known

section Discipline
variable (asks : Q → List (Exchange C R) → C → Prop) (post : Q → List (Exchange C R) → A → Prop)

/-- Every thread has a request, and keeps to its discipline. -/
structure Launched (past : Past C R A W Q X) (pool : Pool C R A W) : Prop where
  length : (requests past).length = pool.threads.length
  typed : ∀ (i : Nat) (request : Q) (program : Program C R A), (requests past)[i]? = some request →
    pool.threads[i]? = some program → program.wp (Program.recording (asks request)) (post request) (own i past)
  unborn : ∀ i, pool.threads.length ≤ i → own i past = []

variable {asks post}

theorem requests_spawn (request : Q) :
    requests ((machine serve launch start).event pool (.spawn request) :: past) = requests past ++ [request] := requests_cons

theorem requests_advance (i : Nat) (choice : X) :
    requests ((machine serve launch start).event pool (.advance i choice) :: past) = requests past :=
  requests_cons.trans (List.append_nil _)

theorem Launched.spawn (kept : Launched asks post past pool) (request : Q)
    (launched : (launch request).wp (Program.recording (asks request)) (post request) []) :
    Launched asks post ((machine serve launch start).event pool (.spawn request) :: past)
      ((machine serve launch start).next pool (.spawn request)) where
  length := by
    change _ = (pool.threads ++ [launch request]).length
    rw [requests_spawn, List.length_append, List.length_append, kept.length]
    rfl
  typed i asked program known found := by
    rw [own_of_unserved rfl]
    rw [requests_spawn, List.getElem?_append, kept.length] at known
    change (pool.threads ++ [launch request])[i]? = some program at found
    rw [List.getElem?_append] at found
    split at found
    next inside =>
      rw [if_pos inside] at known
      exact kept.typed i asked program known found
    next outside =>
      rw [if_neg outside, List.getElem?_singleton, Option.ite_none_right_eq_some] at known
      rw [List.getElem?_singleton, Option.ite_none_right_eq_some] at found
      rw [kept.unborn i (Nat.le_of_not_lt outside), ← Option.some.inj found.2, ← Option.some.inj known.2]
      exact launched
  unborn i outside := by
    change (pool.threads ++ [launch request]).length ≤ i at outside
    rw [List.length_append] at outside
    rw [own_of_unserved rfl]
    exact kept.unborn i (Nat.le_of_add_right_le outside)

theorem Launched.advance (kept : Launched asks post past pool) (j : Nat) (choice : X) :
    Launched asks post ((machine serve launch start).event pool (.advance j choice) :: past)
      ((machine serve launch start).next pool (.advance j choice)) := by
  by_cases waiting : ∃ command next, pool.threads[j]? = some (.call command next)
  · obtain ⟨command, next, thread⟩ := waiting
    have served : step serve launch pool (.advance j choice) =
        (some ⟨pool.world, command, choice, (serve pool.world command choice).1⟩,
          ⟨(serve pool.world command choice).2, pool.threads.set j (next (serve pool.world command choice).1)⟩) := by
      simp only [step, thread]
    have inRange := (List.getElem?_eq_some_iff.mp thread).1
    rw [next_eq, served]
    constructor
    · rw [requests_advance, List.length_set]
      exact kept.length
    · intro i request program known found
      rw [requests_advance] at known
      rw [List.getElem?_set] at found
      rw [own_advance (congrArg Prod.fst served)]
      by_cases same : j = i
      · rw [if_pos same, if_pos inRange, Option.some.injEq] at found
        rw [if_pos same, ← found]
        subst same
        exact (kept.typed j request _ known thread).2 _ trivial
      · rw [if_neg same] at found
        rw [if_neg same]
        exact kept.typed i request program known found
    · intro i outside
      rw [List.length_set] at outside
      rw [own_advance (congrArg Prod.fst served), if_neg (Nat.ne_of_lt (Nat.lt_of_lt_of_le inRange outside))]
      exact kept.unborn i outside
  · have idle : step serve launch pool (.advance j choice) = (none, pool) := by
      rw [step]
      cases thread : pool.threads[j]? with
      | none => rfl
      | some program =>
        cases program with
        | pure value => rfl
        | call command next => exact (waiting ⟨command, next, thread⟩).elim
    rw [next_eq, idle]
    refine ⟨?_, fun i request program known found => ?_, fun i outside => ?_⟩
    · rw [requests_advance]
      exact kept.length
    · rw [requests_advance] at known
      rw [own_idle (congrArg Prod.fst idle)]
      exact kept.typed i request program known found
    · rw [own_idle (congrArg Prod.fst idle)]
      exact kept.unborn i outside

theorem launched_of_run (run : (machine serve launch start).Run guard ⟨start, []⟩ past pool)
    (launched : ∀ request, (launch request).wp (Program.recording (asks request)) (post request) []) :
    Launched asks post past pool := by
  apply run.invariant (Launched asks post)
  · refine ⟨rfl, fun i request program known => ?_, fun i _ => rfl⟩
    cases known
  · intro past pool turn _ _ kept
    cases turn with
    | spawn request => exact kept.spawn request (launched request)
    | advance i choice => exact kept.advance i choice

/-- Who asked for what was served, and that it might. -/
theorem asked_of_run (run : (machine serve launch start).Run guard ⟨start, []⟩ (late ++ event :: early) pool)
    (launched : ∀ request, (launch request).wp (Program.recording (asks request)) (post request) [])
    (turn : servedBy i event = some served) :
    ∃ request, (requests early)[i]? = some request ∧ asks request (own i early) served.command := by
  have kept := launched_of_run run.cut.1 launched
  have happened := run.event_of_mem (List.mem_append_right _ List.mem_cons_self)
  have output := output_of_servedBy turn
  rw [happened] at turn output
  obtain ⟨_, _, _, j, next, advances, thread⟩ := step_served output
  have same : j = i := by
    rw [advances, servedBy_advance] at turn
    by_contra different
    rw [if_neg different] at turn
    cases turn
  rw [same] at thread
  have inside : i < (requests early).length := kept.length ▸ (List.getElem?_eq_some_iff.mp thread).1
  have known := List.getElem?_eq_getElem inside
  exact ⟨_, known, (kept.typed i _ _ known thread).1⟩

theorem asked_of_known (run : (machine serve launch start).Run guard ⟨start, []⟩ (late ++ event :: early) pool)
    (launched : ∀ request, (launch request).wp (Program.recording (asks request)) (post request) []) {request : Q}
    (known : (requests (late ++ event :: early))[i]? = some request) (turn : servedBy i event = some served) :
    asks request (own i early) served.command := by
  obtain ⟨found, before, allowed⟩ := asked_of_run run launched turn
  have same : (requests (late ++ event :: early))[i]? = some found := by
    rw [List.append_cons]
    exact requests_mono before
  obtain rfl := Option.some.inj (same.symm.trans known)
  exact allowed

end Discipline

/-- The answer of a thread that is through. -/
theorem answered_of_run {asks : Q → List (Exchange C R) → C → Prop} {post : Q → List (Exchange C R) → A → Prop}
    (run : (machine serve launch start).Run guard ⟨start, []⟩ past pool)
    (launched : ∀ request, (launch request).wp (Program.recording (asks request)) (post request) [])
    {request : Q} (known : (requests past)[i]? = some request) {answer : A}
    (through : pool.threads[i]? = some (.pure answer)) : post request (own i past) answer :=
  (launched_of_run run launched).typed i request _ known through

/-- What a thread was answered was served to it before. -/
theorem event_of_own {exchange : Exchange C R} (member : exchange ∈ own i past) :
    ∃ late event early served, past = late ++ event :: early ∧ servedBy i event = some served ∧
      (⟨served.command, served.reply⟩ : Exchange C R) = exchange := by
  obtain ⟨event, inside, found⟩ := List.mem_filterMap.mp member
  obtain ⟨served, turn, same⟩ := Option.map_eq_some_iff.mp found
  obtain ⟨late, early, split⟩ := List.append_of_mem inside
  exact ⟨late, event, early, served, split, turn, same⟩

/-- What was served was served to one of the threads. -/
theorem event_of_log (run : (machine serve launch start).Run guard ⟨start, []⟩ past pool) (member : served ∈ log past) :
    ∃ i late event early, past = late ++ event :: early ∧ servedBy i event = some served := by
  obtain ⟨event, inside, output⟩ := List.mem_filterMap.mp member
  have happened := run.event_of_mem inside
  have made : (step serve launch event.before event.input).1 = some served := by
    rw [happened] at output
    exact output
  obtain ⟨_, _, _, i, next, advances, _⟩ := step_served made
  obtain ⟨late, early, split⟩ := List.append_of_mem inside
  refine ⟨i, late, event, early, split, ?_⟩
  rw [servedBy, advances]
  exact (if_pos rfl).trans output

/-- What every command served keeps of the log and the world, every run keeps. -/
theorem log_invariant (inv : List (Served C R W X) → W → Prop)
    (run : (machine serve launch start).Run guard ⟨start, []⟩ past pool) (initial : inv [] start)
    (kept : ∀ {log w} command choice, inv log w →
      inv (⟨w, command, choice, (serve w command choice).1⟩ :: log) (serve w command choice).2) :
    inv (log past) pool.world := by
  apply run.invariant fun past pool => inv (log past) pool.world
  · exact initial
  · intro past pool turn _ _ holds
    cases output : (step serve launch pool turn).1 with
    | none =>
      rw [log_idle output, next_eq, step_unserved output]
      exact holds
    | some made =>
      obtain ⟨before, reply, world, _⟩ := step_served output
      obtain ⟨w, command, choice, answer⟩ := made
      obtain rfl : w = pool.world := before
      obtain rfl : answer = (serve pool.world command choice).1 := reply
      rw [log_served output, next_eq, world]
      exact kept command choice holds

/-- What an event left behind, and every command served since keeps, is there at the end. -/
theorem kept_since (property : W → Prop) (allowed : C → Prop)
    (run : (machine serve launch start).Run guard ⟨start, []⟩ (late ++ event :: early) pool) (left : property event.after.world)
    (kept : ∀ w command choice, property w → allowed command → property (serve w command choice).2)
    (since : ∀ served ∈ log late, allowed served.command) : property pool.world := by
  apply run.since (fun pool => property pool.world) left
  intro later next earlier split before
  have happened := run.event_of_mem (List.mem_append_left _ (split ▸ List.mem_append_right _ List.mem_cons_self))
  cases output : (step serve launch next.before next.input).1 with
  | none =>
    rw [happened]
    change property (step serve launch next.before next.input).2.world
    rw [step_unserved output]
    exact before
  | some served =>
    have listed : served ∈ log late := by
      refine List.mem_filterMap.mpr ⟨next, split ▸ List.mem_append_right _ List.mem_cons_self, ?_⟩
      rw [happened]
      exact output
    obtain ⟨same, _, world, _⟩ := step_served output
    rw [happened]
    change property (step serve launch next.before next.input).2.world
    rw [world, same]
    exact kept _ _ _ before (since served listed)

/-- The same from any pool on. -/
theorem kept_along (property : W → Prop) (allowed : C → Prop) {middle : Pool C R A W}
    (run : (machine serve launch start).Run guard middle past pool) (initial : property middle.world)
    (kept : ∀ w command choice, property w → allowed command → property (serve w command choice).2)
    (all : ∀ served ∈ log past, allowed served.command) : property pool.world := by
  refine run.invariant (fun past pool => (∀ served ∈ log past, allowed served.command) → property pool.world) (fun _ => initial) ?_ all
  intro past pool turn _ _ ih all
  cases output : (step serve launch pool turn).1 with
  | none =>
    rw [log_idle output] at all
    rw [next_eq, step_unserved output]
    exact ih all
  | some served =>
    rw [log_served output] at all
    obtain ⟨same, _, world, _⟩ := step_served output
    rw [next_eq, world, same]
    exact kept _ _ _ (ih fun old member => all old (List.mem_cons_of_mem _ member)) (all served List.mem_cons_self)

theorem own_append : own i (late ++ early) = own i late ++ own i early := List.filterMap_append ..

/-- The world a command was served in, what it was answered, and what it left. -/
theorem served_world (run : (machine serve launch start).Run guard ⟨start, []⟩ (late ++ event :: early) pool)
    (turn : servedBy i event = some served) : served.world = event.before.world ∧
      served.reply = (serve served.world served.command served.choice).1 ∧
      event.after.world = (serve served.world served.command served.choice).2 := by
  have happened := run.event_of_mem (List.mem_append_right _ List.mem_cons_self)
  have output := output_of_servedBy turn
  rw [happened] at output
  obtain ⟨before, reply, world, _⟩ := step_served output
  refine ⟨before, reply, ?_⟩
  rw [happened]
  exact world

theorem log_append : log (late ++ early) = log late ++ log early := List.filterMap_append ..

theorem log_of_servedBy (turn : servedBy i event = some served) : log (event :: past) = served :: log past :=
  List.filterMap_cons_some (output_of_servedBy turn)

end Pool
end Systems
