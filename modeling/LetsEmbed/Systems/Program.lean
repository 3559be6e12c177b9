import Mathlib.Logic.Basic

/-! Programs that issue typed commands and continue with whatever reply comes
back, and a logic for them. A protocol says what a program may ask, what it may
be answered, and how both move a bookkeeping state. -/

namespace Systems

inductive Program (C : Type) (R : C → Type) (α : Type) where
  | pure (value : α)
  | call (command : C) (next : R command → Program C R α)

abbrev Exchange (C : Type) (R : C → Type) := (command : C) × R command

structure Protocol (C : Type) (R : C → Type) (S : Type) where
  asks : S → C → Prop
  answers : S → (command : C) → R command → Prop
  after : S → (command : C) → R command → S

variable {C : Type} {R : C → Type} {S α β ε : Type}

/-- The command may be asked, and whatever it is answered, `next` holds. -/
def Protocol.Step (protocol : Protocol C R S) (s : S) (command : C) (next : S → R command → Prop) : Prop :=
  protocol.asks s command ∧
    ∀ reply, protocol.answers s command reply → next (protocol.after s command reply) reply

namespace Program

def bind (program : Program C R α) (next : α → Program C R β) : Program C R β :=
  match program with
  | .pure value => next value
  | .call command rest => .call command fun reply => (rest reply).bind next

instance : Monad (Program C R) where
  pure := .pure
  bind := .bind

def perform (command : C) : Program C R (R command) := .call command .pure

/-- Every run under the protocol asks only what it may, and ends in `post`. -/
def wp (protocol : Protocol C R S) (post : S → α → Prop) : Program C R α → S → Prop
  | .pure value, s => post s value
  | .call command next, s => protocol.Step s command fun late reply => (next reply).wp protocol post late

variable {protocol : Protocol C R S} {s : S}

theorem wp_bind {post : S → β → Prop} (program : Program C R α) (next : α → Program C R β) :
    (program >>= next).wp protocol post s ↔ program.wp protocol (fun s value => (next value).wp protocol post s) s := by
  change (program.bind next).wp protocol post s ↔ _
  induction program generalizing s with
  | pure value => exact Iff.rfl
  | call command rest ih =>
    exact and_congr_right fun _ => forall_congr' fun reply => imp_congr_right fun _ => ih reply

theorem wp_mono {post other : S → α → Prop} {program : Program C R α} (holds : program.wp protocol post s)
    (implies : ∀ s value, post s value → other s value) : program.wp protocol other s := by
  induction program generalizing s with
  | pure value => exact implies s value holds
  | call command next ih => exact ⟨holds.1, fun reply answered => ih reply (holds.2 reply answered)⟩

def run (serve : S → (command : C) → R command × S) : Program C R α → S → α × S
  | .pure value, s => (value, s)
  | .call command next, s => (next (serve s command).1).run serve (serve s command).2

/-- Every command may be asked, and is answered by these services. -/
def steady (serve : S → (command : C) → R command × S) : Protocol C R S where
  asks _ _ := True
  answers s command reply := reply = (serve s command).1
  after s command _ := (serve s command).2

theorem step_steady {serve : S → (command : C) → R command × S} {command : C} {next : S → R command → Prop} :
    (steady serve).Step s command next ↔ next (serve s command).2 (serve s command).1 := by
  constructor
  · exact fun holds => holds.2 _ rfl
  · intro holds
    exact ⟨trivial, fun reply same => same ▸ holds⟩

theorem wp_steady {serve : S → (command : C) → R command × S} {post : S → α → Prop} {program : Program C R α} :
    program.wp (steady serve) post s ↔ post (program.run serve s).2 (program.run serve s).1 := by
  induction program generalizing s with
  | pure value => exact Iff.rfl
  | call command next ih => exact step_steady.trans (ih _)

/-- Nothing is promised to the program, and what it may ask depends on the
exchanges so far, which are kept newest first. -/
def recording (asks : List (Exchange C R) → C → Prop) : Protocol C R (List (Exchange C R)) where
  asks := asks
  answers _ _ _ := True
  after past command reply := ⟨command, reply⟩ :: past

theorem step_recording {asks : List (Exchange C R) → C → Prop} {past : List (Exchange C R)} {command : C}
    {next : List (Exchange C R) → R command → Prop} : (recording asks).Step past command next ↔
      asks past command ∧ ∀ reply, next (⟨command, reply⟩ :: past) reply :=
  and_congr_right fun _ => forall_congr' fun _ => true_imp_iff

theorem wp_recording_mono {asks laxer : List (Exchange C R) → C → Prop} {post : List (Exchange C R) → α → Prop}
    {program : Program C R α} {past : List (Exchange C R)} (holds : program.wp (recording asks) post past)
    (implies : ∀ past command, asks past command → laxer past command) : program.wp (recording laxer) post past := by
  induction program generalizing past with
  | pure value => exact holds
  | call command next ih => exact ⟨implies _ _ holds.1, fun reply answered => ih reply (holds.2 reply answered)⟩

/-- Two disciplines kept by one program are kept at once. -/
theorem wp_recording_and {asks other : List (Exchange C R) → C → Prop} {post late : List (Exchange C R) → α → Prop}
    {program : Program C R α} {past : List (Exchange C R)} (one : program.wp (recording asks) post past)
    (two : program.wp (recording other) late past) :
    program.wp (recording fun past command => asks past command ∧ other past command)
      (fun past value => post past value ∧ late past value) past := by
  induction program generalizing past with
  | pure value => exact ⟨one, two⟩
  | call command next ih =>
    exact ⟨⟨one.1, two.1⟩, fun reply answered => ih reply (one.2 reply answered) (two.2 reply answered)⟩

/-- Where a discipline forbids nothing any more, every program keeps it. -/
theorem wp_recording_free {asks : List (Exchange C R) → C → Prop} {program : Program C R α} {past : List (Exchange C R)}
    (free : ∀ late command, asks (late ++ past) command) : program.wp (recording asks) (fun _ _ => True) past := by
  induction program generalizing past with
  | pure value => trivial
  | call command next ih =>
    refine ⟨free [] command, fun reply _ => ih reply fun late asked => ?_⟩
    have later := free (late ++ [⟨command, reply⟩]) asked
    rwa [List.append_assoc] at later

/-- What every exchange of a discipline keeps holds where the program ends. -/
theorem wp_recording_keeps (inv : List (Exchange C R) → Prop) {asks : List (Exchange C R) → C → Prop}
    {post : List (Exchange C R) → α → Prop} {program : Program C R α} {past : List (Exchange C R)}
    (holds : program.wp (recording asks) post past) (start : inv past)
    (kept : ∀ past command reply, inv past → asks past command → inv (⟨command, reply⟩ :: past)) :
    program.wp (recording asks) (fun late value => post late value ∧ inv late) past := by
  induction program generalizing past with
  | pure value => exact ⟨holds, start⟩
  | call command next ih =>
    exact ⟨holds.1, fun reply answered => ih reply (holds.2 reply answered) (kept past command reply start holds.1)⟩

/-- Services that answer from the exchanges so far, in any way whatever. -/
def converse (oracle : List (Exchange C R) → (command : C) → R command) (past : List (Exchange C R)) (command : C) :
    R command × List (Exchange C R) := (oracle past command, ⟨command, oracle past command⟩ :: past)

theorem asked_of_wp {asks : List (Exchange C R) → C → Prop} {post : List (Exchange C R) → α → Prop}
    {program : Program C R α} {past : List (Exchange C R)} (holds : program.wp (recording asks) post past)
    (oracle : List (Exchange C R) → (command : C) → R command) :
    ∃ late, (program.run (converse oracle) past).2 = late ++ past ∧
      ∀ later exchange earlier, late = later ++ exchange :: earlier → asks (earlier ++ past) exchange.1 := by
  induction program generalizing past with
  | pure value => exact ⟨[], rfl, fun later exchange earlier split => by simp at split⟩
  | call command next ih =>
    obtain ⟨late, history, asked⟩ := ih (oracle past command) (holds.2 (oracle past command) trivial)
    refine ⟨late ++ [⟨command, oracle past command⟩], ?_, fun later exchange earlier split => ?_⟩
    · rw [List.append_assoc]
      exact history
    · rcases List.eq_nil_or_concat earlier with rfl | ⟨rest, last, rfl⟩
      · obtain ⟨_, same⟩ := List.append_inj' split rfl
        rw [List.cons.injEq] at same
        rw [← same.1]
        exact holds.1
      · rw [List.concat_eq_append, ← List.cons_append, ← List.append_assoc] at split
        obtain ⟨front, same⟩ := List.append_inj' split rfl
        rw [List.cons.injEq] at same
        rw [List.concat_eq_append, ← same.1, List.append_assoc]
        exact asked later exchange rest front

end Program

abbrev Handler (C : Type) (R : C → Type) (ε : Type) (α : Type) := ExceptT ε (Program C R) α

namespace Handler

def perform (command : C) : Handler C R ε (R command) := ExceptT.lift (Program.perform command)

def wp (protocol : Protocol C R S) (ok : S → α → Prop) (exit : S → ε → Prop) (handler : Handler C R ε α) (s : S) :
    Prop :=
  handler.run.wp protocol (fun s result => match result with | .ok value => ok s value | .error early => exit s early) s

variable {protocol : Protocol C R S} {s : S} {exit : S → ε → Prop}

@[simp] theorem wp_pure {ok : S → α → Prop} (value : α) :
    wp protocol ok exit (pure value : Handler C R ε α) s ↔ ok s value := Iff.rfl

@[simp] theorem wp_throw {ok : S → α → Prop} (early : ε) :
    wp protocol ok exit (throw early : Handler C R ε α) s ↔ exit s early := Iff.rfl

@[simp] theorem wp_perform (command : C) {ok : S → R command → Prop} :
    wp protocol ok exit (perform command) s ↔ protocol.Step s command ok := Iff.rfl

@[simp] theorem wp_bind {ok : S → β → Prop} (handler : Handler C R ε α) (next : α → Handler C R ε β) :
    wp protocol ok exit (handler >>= next) s ↔
      wp protocol (fun s value => wp protocol ok exit (next value) s) exit handler s := by
  change Program.wp protocol _ (handler.run >>= ExceptT.bindCont next) s ↔ _
  rw [Program.wp_bind]
  constructor
  · intro holds
    apply Program.wp_mono holds
    intro s result post
    cases result <;> exact post
  · intro holds
    apply Program.wp_mono holds
    intro s result post
    cases result <;> exact post

theorem wp_mono {ok other : S → α → Prop} {late : S → ε → Prop} {handler : Handler C R ε α}
    (holds : wp protocol ok exit handler s) (implies : ∀ s value, ok s value → other s value)
    (exits : ∀ s early, exit s early → late s early) : wp protocol other late handler s := by
  apply Program.wp_mono holds
  intro s result post
  cases result with
  | ok value => exact implies s value post
  | error early => exact exits s early post

theorem wp_steady {serve : S → (command : C) → R command × S} {ok : S → α → Prop} {handler : Handler C R ε α} :
    wp (Program.steady serve) ok exit handler s ↔
      match (handler.run.run serve s).1 with
      | .ok value => ok (handler.run.run serve s).2 value
      | .error early => exit (handler.run.run serve s).2 early := Program.wp_steady

theorem wp_ask {asks : List (Exchange C R) → C → Prop} {ok : List (Exchange C R) → α → Prop}
    {exit : List (Exchange C R) → ε → Prop} {command : C} {next : R command → Handler C R ε α}
    {past : List (Exchange C R)} (asked : asks past command)
    (goes : ∀ reply, wp (Program.recording asks) ok exit (next reply) (⟨command, reply⟩ :: past)) :
    wp (Program.recording asks) ok exit (perform command >>= next) past :=
  (wp_bind _ _).mpr ((wp_perform command).mpr (Program.step_recording.mpr ⟨asked, goes⟩))

theorem wp_recording_mono {asks laxer : List (Exchange C R) → C → Prop} {ok : List (Exchange C R) → α → Prop}
    {exit : List (Exchange C R) → ε → Prop} {handler : Handler C R ε α} {past : List (Exchange C R)}
    (holds : wp (Program.recording asks) ok exit handler past)
    (implies : ∀ past command, asks past command → laxer past command) :
    wp (Program.recording laxer) ok exit handler past := Program.wp_recording_mono holds implies

theorem wp_recording_and {asks other : List (Exchange C R) → C → Prop} {ok also : List (Exchange C R) → α → Prop}
    {exit late : List (Exchange C R) → ε → Prop} {handler : Handler C R ε α} {past : List (Exchange C R)}
    (one : wp (Program.recording asks) ok exit handler past) (two : wp (Program.recording other) also late handler past) :
    wp (Program.recording fun past command => asks past command ∧ other past command)
      (fun past value => ok past value ∧ also past value) (fun past early => exit past early ∧ late past early) handler
      past := by
  apply Program.wp_mono (Program.wp_recording_and one two)
  intro past result holds
  cases result <;> exact holds

theorem wp_recording_free {asks : List (Exchange C R) → C → Prop} {handler : Handler C R ε α} {past : List (Exchange C R)}
    (free : ∀ late command, asks (late ++ past) command) :
    wp (Program.recording asks) (fun _ _ => True) (fun _ _ => True) handler past := by
  apply Program.wp_mono (Program.wp_recording_free free)
  intro past result _
  cases result <;> trivial

theorem asked_of_wp {asks : List (Exchange C R) → C → Prop} {ok : List (Exchange C R) → α → Prop}
    {exit : List (Exchange C R) → ε → Prop} {handler : Handler C R ε α}
    (holds : wp (Program.recording asks) ok exit handler [])
    (oracle : List (Exchange C R) → (command : C) → R command) {later earlier : List (Exchange C R)}
    {exchange : Exchange C R}
    (history : (handler.run.run (Program.converse oracle) []).2 = later ++ exchange :: earlier) :
    asks earlier exchange.1 := by
  obtain ⟨late, whole, asked⟩ := Program.asked_of_wp holds oracle
  rw [history, List.append_nil] at whole
  have right := asked later exchange earlier whole.symm
  rwa [List.append_nil] at right

theorem run_of_wp {ok : S → α → Prop} {handler : Handler C R ε α} (holds : wp protocol ok exit handler s) :
    handler.run.wp protocol (fun s result => match result with
      | .ok value => ok s value
      | .error early => exit s early) s := holds

-- From here on a handler is stepped through by the lemmas above only: unfolding `wp` would run it.
attribute [irreducible] wp

end Handler
end Systems
