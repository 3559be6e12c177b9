import Mathlib.Data.List.Forall2
import LetsEmbed.Systems.Machine
import LetsEmbed.Systems.Program

/-! Programs running side by side over one world. Each turn starts a program or
serves one command of one of them, so a run is any interleaving. A protocol that
every program keeps to turns into an invariant of the whole pool. -/

namespace Systems

structure Pool (C : Type) (R : C → Type) (A W : Type) where
  world : W
  threads : List (Program C R A)

inductive Turn (Q X : Type) where
  | spawn (request : Q)
  | advance (thread : Nat) (choice : X)

structure Served (C : Type) (R : C → Type) (W X : Type) where
  world : W
  command : C
  choice : X
  reply : R command

namespace Pool
variable {C A W Q X S : Type} {R : C → Type}

section Machine
variable (serve : W → (command : C) → X → R command × W) (launch : Q → Program C R A)

def step (pool : Pool C R A W) : Turn Q X → Option (Served C R W X) × Pool C R A W
  | .spawn request => (none, { pool with threads := pool.threads ++ [launch request] })
  | .advance i choice =>
    match pool.threads[i]? with
    | some (.call command next) =>
      let (reply, world) := serve pool.world command choice
      (some ⟨pool.world, command, choice, reply⟩, ⟨world, pool.threads.set i (next reply)⟩)
    | _ => (none, pool)

def machine (start : W) : Machine (Pool C R A W) (Turn Q X) (Option (Served C R W X)) where
  initial := ⟨start, []⟩
  step := step serve launch

end Machine

abbrev Past (C : Type) (R : C → Type) (A W Q X : Type) :=
  List (Event (Pool C R A W) (Turn Q X) (Option (Served C R W X)))

def log (past : Past C R A W Q X) : List (Served C R W X) := past.filterMap (·.output)

variable {serve : W → (command : C) → X → R command × W} {launch : Q → Program C R A} {start : W}

/-- Every command served fits what was served before. -/
def serving (serve : W → (command : C) → X → R command × W) (launch : Q → Program C R A)
    (fits : List (Served C R W X) → Served C R W X → Prop) :
    Guard (Pool C R A W) (Turn Q X) (Option (Served C R W X)) :=
  fun past pool turn => ∀ served, (step serve launch pool turn).1 = some served → fits (log past) served

instance (fits : List (Served C R W X) → Served C R W X → Prop) [∀ log served, Decidable (fits log served)]
    (past : Past C R A W Q X) (pool : Pool C R A W) (turn : Turn Q X) :
    Decidable (serving serve launch fits past pool turn) :=
  inferInstanceAs (Decidable (∀ served ∈ (step serve launch pool turn).1, fits (log past) served))

section Paired
variable {α β : Type} {r : α → β → Prop} {xs : List α} {ys : List β} {i : Nat} {a : α} {b : β}

theorem forall₂_get (all : List.Forall₂ r xs ys) (found : xs[i]? = some a) : ∃ b, ys[i]? = some b ∧ r a b := by
  induction all generalizing i with
  | nil => simp at found
  | @cons x y xs ys head tail ih =>
    cases i with
    | zero =>
      rw [List.getElem?_cons_zero, Option.some.injEq] at found
      exact ⟨y, List.getElem?_cons_zero, found ▸ head⟩
    | succ i =>
      rw [List.getElem?_cons_succ] at found
      obtain ⟨b, state, holds⟩ := ih found
      exact ⟨b, List.getElem?_cons_succ.trans state, holds⟩

theorem forall₂_set (all : List.Forall₂ r xs ys) (holds : r a b) : List.Forall₂ r (xs.set i a) (ys.set i b) := by
  induction all generalizing i with
  | nil => exact .nil
  | cons head tail ih =>
    cases i with
    | zero => exact .cons holds tail
    | succ i => exact .cons head ih

end Paired

/-- Every program of a pool keeps to a protocol from its own bookkeeping state.
What the services preserve of the log, the world and these states, a run of the
pool preserves. -/
theorem invariant {protocol : Protocol C R S} {post : S → A → Prop} {fresh : S}
    {fits : List (Served C R W X) → Served C R W X → Prop} {inv : List (Served C R W X) → W → List S → Prop}
    {past : Past C R A W Q X} {pool : Pool C R A W}
    (run : (machine serve launch start).Run (serving serve launch fits) ⟨start, []⟩ past pool)
    (launched : ∀ request, (launch request).wp protocol post fresh) (initial : inv [] start [])
    (spawned : ∀ {log w states}, inv log w states → inv log w (states ++ [fresh]))
    (served : ∀ {log w states i s command} choice, inv log w states → states[i]? = some s →
      protocol.asks s command → fits log ⟨w, command, choice, (serve w command choice).1⟩ →
      protocol.answers s command (serve w command choice).1 ∧
        inv (⟨w, command, choice, (serve w command choice).1⟩ :: log) (serve w command choice).2
          (states.set i (protocol.after s command (serve w command choice).1))) :
    ∃ states, List.Forall₂ (fun program s => program.wp protocol post s) pool.threads states ∧
      inv (log past) pool.world states := by
  apply run.invariant fun past pool =>
    ∃ states, List.Forall₂ (fun program s => program.wp protocol post s) pool.threads states ∧
      inv (log past) pool.world states
  · exact ⟨[], .nil, initial⟩
  · intro past pool turn _ allowed ⟨states, typed, holds⟩
    cases turn with
    | spawn request =>
      exact ⟨states ++ [fresh], List.rel_append typed (.cons (launched request) .nil), spawned holds⟩
    | advance i choice =>
      cases found : pool.threads[i]? with
      | none =>
        refine ⟨states, ?_, ?_⟩
        · simpa [Machine.next, machine, step, found] using typed
        · simpa [log, Machine.event, Machine.next, machine, step, found] using holds
      | some program =>
        obtain ⟨s, state, keeps⟩ := forall₂_get typed found
        cases program with
        | pure value =>
          refine ⟨states, ?_, ?_⟩
          · simpa [Machine.next, machine, step, found] using typed
          · simpa [log, Machine.event, Machine.next, machine, step, found] using holds
        | call command next =>
          have fit := allowed ⟨pool.world, command, choice, (serve pool.world command choice).1⟩
            (by simp [step, found])
          obtain ⟨answered, moved⟩ := served choice holds state keeps.1 fit
          refine ⟨states.set i (protocol.after s command (serve pool.world command choice).1), ?_, ?_⟩
          · simpa [Machine.next, machine, step, found] using forall₂_set typed (keeps.2 _ answered)
          · simpa [log, Machine.event, Machine.next, machine, step, found] using moved

section Threads

/-- What an event served, if it was this thread's turn. -/
def servedBy (i : Nat) (event : Event (Pool C R A W) (Turn Q X) (Option (Served C R W X))) :
    Option (Served C R W X) :=
  match event.input with
  | .advance j _ => if j = i then event.output else none
  | .spawn _ => none

/-- The exchanges of one thread, newest first. -/
def own (i : Nat) (past : Past C R A W Q X) : List (Exchange C R) :=
  past.filterMap fun event => (servedBy i event).map fun served => ⟨served.command, served.reply⟩

/-- What has happened since a thread last asked for a command of some kind. -/
def since (kind : C → Bool) (i : Nat) (past : Past C R A W Q X) : Past C R A W Q X :=
  past.takeWhile fun event => !(servedBy i event).any fun served => kind served.command

theorem output_of_servedBy {i : Nat} {event : Event (Pool C R A W) (Turn Q X) (Option (Served C R W X))}
    {served : Served C R W X} (turn : servedBy i event = some served) : event.output = some served := by
  rw [servedBy] at turn
  split at turn
  · exact (Option.ite_none_right_eq_some.mp turn).2
  · cases turn

theorem step_served {pool : Pool C R A W} {turn : Turn Q X} {served : Served C R W X}
    (made : (step serve launch pool turn).1 = some served) :
    served.world = pool.world ∧ served.reply = (serve served.world served.command served.choice).1 ∧
      (step serve launch pool turn).2.world = (serve served.world served.command served.choice).2 ∧
      ∃ i next, turn = .advance i served.choice ∧ pool.threads[i]? = some (.call served.command next) := by
  cases turn with
  | spawn request => cases made
  | advance i choice =>
    rw [step] at made ⊢
    cases found : pool.threads[i]? with
    | none => simp [found] at made
    | some program =>
      cases program with
      | pure value => simp [found] at made
      | call command next =>
        simp only [found, Option.some.injEq] at made ⊢
        subst made
        exact ⟨rfl, rfl, rfl, i, next, rfl, found⟩

theorem step_unserved {pool : Pool C R A W} {turn : Turn Q X} (idle : (step serve launch pool turn).1 = none) :
    (step serve launch pool turn).2.world = pool.world := by
  cases turn with
  | spawn request => rfl
  | advance i choice =>
    rw [step] at idle ⊢
    cases found : pool.threads[i]? with
    | none => rfl
    | some program =>
      cases program with
      | pure value => rfl
      | call command next => simp [found] at idle

section Own
variable {i : Nat} {past : Past C R A W Q X} {event : Event (Pool C R A W) (Turn Q X) (Option (Served C R W X))}

theorem own_of_unserved (idle : servedBy i event = none) : own i (event :: past) = own i past :=
  List.filterMap_cons_none (congrArg (Option.map _) idle)

theorem own_of_served {served : Served C R W X} (turn : servedBy i event = some served) :
    own i (event :: past) = ⟨served.command, served.reply⟩ :: own i past :=
  List.filterMap_cons_some (congrArg (Option.map _) turn)

/-- The last exchange of a kind is where its event was, and nothing of the kind
was asked since. -/
theorem own_find {kind : C → Bool} {exchange : Exchange C R} (found : (own i past).find? (kind ·.1) = some exchange) :
    ∃ event early served, past = since kind i past ++ event :: early ∧ servedBy i event = some served ∧
      (⟨served.command, served.reply⟩ : Exchange C R) = exchange := by
  induction past with
  | nil => cases found
  | cons event rest ih =>
    cases turn : servedBy i event with
    | none =>
      rw [own_of_unserved turn] at found
      obtain ⟨last, early, served, split, asked⟩ := ih found
      refine ⟨last, early, served, ?_, asked⟩
      rw [since, List.takeWhile_cons_of_pos (by simp [turn]), List.cons_append]
      exact congrArg (event :: ·) split
    | some served =>
      rw [own_of_served turn] at found
      by_cases asks : kind served.command = true
      · rw [List.find?_cons_of_pos (by exact asks), Option.some.injEq] at found
        refine ⟨event, rest, served, ?_, turn, found⟩
        rw [since, List.takeWhile_cons_of_neg (by simp [turn, asks]), List.nil_append]
      · rw [List.find?_cons_of_neg (by exact asks)] at found
        obtain ⟨last, early, older, split, asked⟩ := ih found
        refine ⟨last, early, older, ?_, asked⟩
        rw [since, List.takeWhile_cons_of_pos (by simp [turn, asks]), List.cons_append]
        exact congrArg (event :: ·) split

end Own

section Discipline
variable (asks : List (Exchange C R) → C → Prop) (post : List (Exchange C R) → A → Prop)

/-- Every thread keeps to its discipline given its own exchanges. -/
structure Disciplined (past : Past C R A W Q X) (pool : Pool C R A W) : Prop where
  typed : ∀ i (program : Program C R A), pool.threads[i]? = some program → program.wp (Program.recording asks) post (own i past)
  unborn : ∀ i, pool.threads.length ≤ i → own i past = []

variable {asks post} {past : Past C R A W Q X} {pool : Pool C R A W}

theorem Disciplined.spawn (kept : Disciplined asks post past pool) (request : Q)
    (launched : (launch request).wp (Program.recording asks) post []) :
    Disciplined asks post ((machine serve launch start).event pool (.spawn request) :: past)
      ((machine serve launch start).next pool (.spawn request)) where
  typed i program found := by
    rw [own_of_unserved rfl]
    change (pool.threads ++ [launch request])[i]? = some program at found
    rw [List.getElem?_append] at found
    split at found
    · exact kept.typed i program found
    next outside =>
      rw [List.getElem?_singleton, Option.ite_none_right_eq_some] at found
      rw [kept.unborn i (Nat.le_of_not_lt outside), ← Option.some.inj found.2]
      exact launched
  unborn i outside := by
    change (pool.threads ++ [launch request]).length ≤ i at outside
    rw [List.length_append] at outside
    rw [own_of_unserved rfl]
    exact kept.unborn i (Nat.le_of_add_right_le outside)

theorem servedBy_advance (i j : Nat) (choice : X) :
    servedBy i ((machine serve launch start).event pool (.advance j choice)) =
      if j = i then (step serve launch pool (.advance j choice)).1 else none := rfl

theorem next_eq (turn : Turn Q X) :
    (machine serve launch start).next pool turn = (step serve launch pool turn).2 := rfl

/-- One turn adds an exchange to one thread, or to none. -/
theorem own_idle {turn : Turn Q X} (idle : (step serve launch pool turn).1 = none) (i : Nat) :
    own i ((machine serve launch start).event pool turn :: past) = own i past := by
  apply own_of_unserved
  cases turn with
  | spawn request => rfl
  | advance j choice =>
    rw [servedBy_advance, idle]
    exact ite_self none

theorem own_advance {j : Nat} {choice : X} {served : Served C R W X}
    (made : (step serve launch pool (.advance j choice)).1 = some served) (i : Nat) :
    own i ((machine serve launch start).event pool (.advance j choice) :: past) =
      if j = i then ⟨served.command, served.reply⟩ :: own i past else own i past := by
  have turn := @servedBy_advance _ _ _ _ _ _ serve launch start pool i j choice
  rw [made] at turn
  split
  next same => exact own_of_served (turn.trans (if_pos same))
  next different => exact own_of_unserved (turn.trans (if_neg different))

theorem log_idle {turn : Turn Q X} (idle : (step serve launch pool turn).1 = none) :
    log ((machine serve launch start).event pool turn :: past) = log past := List.filterMap_cons_none idle

theorem log_served {turn : Turn Q X} {served : Served C R W X} (made : (step serve launch pool turn).1 = some served) :
    log ((machine serve launch start).event pool turn :: past) = served :: log past := List.filterMap_cons_some made

theorem Disciplined.advance (kept : Disciplined asks post past pool) (j : Nat) (choice : X) :
    Disciplined asks post ((machine serve launch start).event pool (.advance j choice) :: past)
      ((machine serve launch start).next pool (.advance j choice)) := by
  by_cases waiting : ∃ command next, pool.threads[j]? = some (.call command next)
  · obtain ⟨command, next, thread⟩ := waiting
    have served : step serve launch pool (.advance j choice) =
        (some ⟨pool.world, command, choice, (serve pool.world command choice).1⟩,
          ⟨(serve pool.world command choice).2, pool.threads.set j (next (serve pool.world command choice).1)⟩) := by
      simp only [step, thread]
    have inRange := (List.getElem?_eq_some_iff.mp thread).1
    rw [next_eq, served]
    constructor
    · intro i program found
      rw [List.getElem?_set] at found
      rw [own_advance (congrArg Prod.fst served)]
      by_cases same : j = i
      · rw [if_pos same, if_pos inRange, Option.some.injEq] at found
        rw [if_pos same, ← found]
        subst same
        exact (kept.typed j _ thread).2 _ trivial
      · rw [if_neg same] at found
        rw [if_neg same]
        exact kept.typed i program found
    · intro i outside
      rw [List.length_set] at outside
      rw [own_advance (congrArg Prod.fst served), if_neg (Nat.ne_of_lt (Nat.lt_of_lt_of_le inRange outside))]
      exact kept.unborn i outside
  · have idle : step serve launch pool (.advance j choice) = (none, pool) := by
      rw [step]
      cases thread : pool.threads[j]? with
      | none => rfl
      | some program =>
        cases program with
        | pure value => rfl
        | call command next => exact (waiting ⟨command, next, thread⟩).elim
    rw [next_eq, idle]
    constructor
    · intro i program found
      rw [own_idle (congrArg Prod.fst idle)]
      exact kept.typed i program found
    · intro i outside
      rw [own_idle (congrArg Prod.fst idle)]
      exact kept.unborn i outside

/-- Whatever the other threads do, and whatever turns are permitted. -/
theorem disciplined {guard : Guard (Pool C R A W) (Turn Q X) (Option (Served C R W X))}
    (run : (machine serve launch start).Run guard ⟨start, []⟩ past pool)
    (launched : ∀ request, (launch request).wp (Program.recording asks) post []) : Disciplined asks post past pool := by
  apply run.invariant (Disciplined asks post)
  · exact ⟨fun i program found => by simp at found, fun i _ => rfl⟩
  · intro past pool turn _ _ kept
    cases turn with
    | spawn request => exact kept.spawn request (launched request)
    | advance i choice => exact kept.advance i choice

end Discipline

/-- One thread's exchanges with one more, and all others as they were. -/
def extend (own : Nat → List (Exchange C R)) (i : Nat) (exchange : Exchange C R) (j : Nat) : List (Exchange C R) :=
  if i = j then exchange :: own j else own j

theorem extend_cases (own : Nat → List (Exchange C R)) (i j : Nat) (exchange : Exchange C R) :
    i = j ∧ extend own i exchange j = exchange :: own j ∨ i ≠ j ∧ extend own i exchange j = own j := by
  by_cases same : i = j
  · exact .inl ⟨same, if_pos same⟩
  · exact .inr ⟨same, if_neg same⟩

theorem mem_extend {own : Nat → List (Exchange C R)} {i j : Nat} {exchange old : Exchange C R}
    (member : old ∈ extend own i exchange j) : i = j ∧ old = exchange ∨ old ∈ own j := by
  rcases extend_cases own i j exchange with ⟨same, whole⟩ | ⟨_, whole⟩
  · rw [whole] at member
    exact (List.mem_cons.mp member).imp (fun now => ⟨same, now⟩) id
  · rw [whole] at member
    exact .inr member

/-- What a command asked in turn preserves of the threads' exchanges, the log and
the world, a run preserves. -/
theorem own_invariant {asks : List (Exchange C R) → C → Prop} {post : List (Exchange C R) → A → Prop}
    {fits : List (Served C R W X) → Served C R W X → Prop}
    {inv : (Nat → List (Exchange C R)) → List (Served C R W X) → W → Prop} {past : Past C R A W Q X} {pool : Pool C R A W}
    (run : (machine serve launch start).Run (serving serve launch fits) ⟨start, []⟩ past pool)
    (launched : ∀ request, (launch request).wp (Program.recording asks) post [])
    (initial : inv (fun _ => []) [] start)
    (served : ∀ {own log w i command} choice, inv own log w → asks (own i) command →
      fits log ⟨w, command, choice, (serve w command choice).1⟩ →
      inv (extend own i ⟨command, (serve w command choice).1⟩) (⟨w, command, choice, (serve w command choice).1⟩ :: log)
        (serve w command choice).2) : inv (fun i => own i past) (log past) pool.world := by
  apply run.invariant fun past pool => inv (fun i => own i past) (log past) pool.world
  · exact initial
  · intro past pool turn running fit holds
    cases output : (step serve launch pool turn).1 with
    | none =>
      have same : (fun i => own i ((machine serve launch start).event pool turn :: past)) = fun i => own i past :=
        funext (own_idle output)
      rw [same, log_idle output, next_eq, step_unserved output]
      exact holds
    | some made =>
      have fitting := fit made output
      obtain ⟨before, reply, world, i, next, rfl, thread⟩ := step_served output
      have asked := ((disciplined running launched).typed i _ thread).1
      have longer : (fun j => own j ((machine serve launch start).event pool (.advance i made.choice) :: past)) =
          extend (fun j => own j past) i ⟨made.command, made.reply⟩ := funext (own_advance output)
      rw [longer, log_served output, next_eq, world]
      obtain ⟨w, command, choice, answer⟩ := made
      obtain rfl : w = pool.world := before
      obtain rfl : answer = (serve pool.world command choice).1 := reply
      exact served choice holds asked fitting

section Turns
variable {fits : List (Served C R W X) → Served C R W X → Prop} {past : Past C R A W Q X} {w : W}
  {threads : List (Program C R A)} {i : Nat}

theorem run_spawn (run : (machine serve launch start).Run (serving serve launch fits) ⟨start, []⟩ past ⟨w, threads⟩)
    (request : Q) : ∃ late, (machine serve launch start).Run (serving serve launch fits) ⟨start, []⟩ late
      ⟨w, threads ++ [launch request]⟩ ∧ log late = log past := by
  have permitted : serving serve launch fits past ⟨w, threads⟩ (.spawn request) := by
    intro served output
    cases output
  exact ⟨_, run.step permitted, log_idle (show (step serve launch _ (.spawn request)).1 = none from rfl)⟩

theorem run_served (run : (machine serve launch start).Run (serving serve launch fits) ⟨start, []⟩ past ⟨w, threads⟩)
    {command : C} {next : R command → Program C R A} (thread : threads[i]? = some (.call command next)) (choice : X)
    (fit : fits (log past) ⟨w, command, choice, (serve w command choice).1⟩) :
    ∃ late, (machine serve launch start).Run (serving serve launch fits) ⟨start, []⟩ late
        ⟨(serve w command choice).2, threads.set i (next (serve w command choice).1)⟩ ∧
      log late = ⟨w, command, choice, (serve w command choice).1⟩ :: log past := by
  have made : step serve launch ⟨w, threads⟩ (.advance i choice) =
      (some ⟨w, command, choice, (serve w command choice).1⟩,
        ⟨(serve w command choice).2, threads.set i (next (serve w command choice).1)⟩) := by
    simp only [step, thread]
  have permitted : serving serve launch fits past ⟨w, threads⟩ (.advance i choice) := by
    intro served output
    rw [made, Option.some.injEq] at output
    rw [← output]
    exact fit
  have later := run.step permitted
  rw [next_eq, made] at later
  exact ⟨_, later, log_served (congrArg Prod.fst made)⟩

/-- A thread that has all turns for a while ends what it is at as it would by
itself, and asks nothing else meanwhile. -/
theorem run_alone {B : Type} (choose : W → C → X) {kind : C → Prop} {program : Program C R B} {next : B → Program C R A}
    {post : List (Exchange C R) → B → Prop} {exchanges : List (Exchange C R)}
    (keeps : program.wp (Program.recording fun _ command => kind command) post exchanges)
    (run : (machine serve launch start).Run (serving serve launch fits) ⟨start, []⟩ past ⟨w, threads⟩)
    (fit : ∀ early served, (∀ old ∈ early, kind old.command) → kind served.command →
      served.choice = choose served.world served.command → fits (early ++ log past) served)
    (found : threads[i]? = some (program >>= next)) :
    ∃ late early, (machine serve launch start).Run (serving serve launch fits) ⟨start, []⟩ late
        ⟨(program.run (fun w command => serve w command (choose w command)) w).2,
          threads.set i (next (program.run (fun w command => serve w command (choose w command)) w).1)⟩ ∧
      log late = early ++ log past ∧ ∀ old ∈ early, kind old.command := by
  induction program generalizing past w threads exchanges with
  | pure value =>
    refine ⟨past, [], ?_, rfl, fun served member => by cases member⟩
    have same : threads.set i (next value) = threads := by
      obtain ⟨inRange, here⟩ := List.getElem?_eq_some_iff.mp found
      rw [show next value = threads[i] from here.symm]
      exact List.set_getElem_self inRange
    rw [← same] at run
    exact run
  | call command rest ih =>
    have thread : threads[i]? = some (.call command fun reply => rest reply >>= next) := found
    obtain ⟨soon, later, grown⟩ := run_served run thread (choose w command) (fit [] _ (by simp) keeps.1 rfl)
    have fitLater {early : List (Served C R W X)} {served : Served C R W X} (all : ∀ old ∈ early, kind old.command)
        (known : kind served.command) (chosen : served.choice = choose served.world served.command) :
        fits (early ++ log soon) served := by
      rw [grown, List.append_cons]
      apply fit _ served _ known chosen
      intro old member
      rcases List.mem_append.mp member with member | member
      · exact all old member
      · rw [List.mem_singleton.mp member]
        exact keeps.1
    have inRange := (List.getElem?_eq_some_iff.mp thread).1
    obtain ⟨late, early, ended, split, kept⟩ :=
      ih _ (keeps.2 _ trivial) later (fun _ _ => fitLater) (List.getElem?_set_self inRange)
    refine ⟨late, early ++ [⟨w, command, choose w command, (serve w command (choose w command)).1⟩], ?_, ?_, ?_⟩
    · rw [List.set_set] at ended
      exact ended
    · rw [split, grown, List.append_cons]
    · intro old member
      rcases List.mem_append.mp member with member | member
      · exact kept old member
      · rw [List.mem_singleton.mp member]
        exact keeps.1

end Turns

end Threads

/-- Turns whose choices are all good are permitted, if that is all that matters. -/
theorem permitted {fits : List (Served C R W X) → Served C R W X → Prop} {good : X → Prop}
    (enough : ∀ log w command choice, (∀ old ∈ log, good old.choice) → good choice →
      fits log ⟨w, command, choice, (serve w command choice).1⟩)
    (turns : List (Turn Q X)) (all : ∀ i choice, .advance i choice ∈ turns → good choice)
    {past : Past C R A W Q X} {pool : Pool C R A W} (before : ∀ old ∈ log past, good old.choice) :
    (machine serve launch start).Permitted (serving serve launch fits) (past, pool) turns := by
  induction turns generalizing past pool with
  | nil => trivial
  | cons turn rest ih =>
    have output {served : Served C R W X} (made : (step serve launch pool turn).1 = some served) :
        good served.choice ∧ fits (log past) served := by
      cases turn with
      | spawn request => cases made
      | advance i choice =>
        have chosen := all i choice List.mem_cons_self
        dsimp only [step] at made
        cases thread : pool.threads[i]? with
        | none => simp [thread] at made
        | some program =>
          cases program with
          | pure value => simp [thread] at made
          | call command next =>
            simp only [thread, Option.some.injEq] at made
            subst made
            exact ⟨chosen, enough _ _ _ _ before chosen⟩
    refine ⟨fun served made => (output made).2, ih (fun i choice member => all i choice ?_) fun old member => ?_⟩
    · exact List.mem_cons_of_mem _ member
    · obtain ⟨event, happened, served⟩ := List.mem_filterMap.mp member
      rcases List.mem_cons.mp happened with rfl | happened
      · exact (output served).1
      · exact before old (List.mem_filterMap.mpr ⟨event, happened, served⟩)

end Pool
end Systems
