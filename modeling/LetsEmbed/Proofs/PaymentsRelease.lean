import LetsEmbed.Proofs.PaymentsAgree

/-! What becomes of the row a top-up locks its transaction with. Every way out
of a handler ends the row by one statement whose own failure is only logged, so
a row stays pending just where that statement, or the response of the insert,
was lost on the way. -/

namespace LetsEmbed.Worker
open Account Auth Payments SolanaLink Systems

def status (w : World) (hash : String) : Option Status := (w.payments hash).map (·.status)

/-- A row is inserted without the handler's knowing, or not ended. -/
def slips (hash : String) (served : Served) : Bool :=
  match served.command with
  | .insertPayment other .. => decide (other = hash) && (served.world.payments hash).isNone && decide (served.choice.fault = .lost)
  | .rejectPayment other | .deletePending other | .creditPayment other .. =>
    decide (other = hash) && decide (served.choice.fault = .refused)
  | _ => false

/-- Unless it panicked, a request that has answered holds no row. -/
def Leaves (past : History) (answer : Answer) : Prop := answer ≠ .panic → phase past = .quiet

section Discipline
variable {st : AppState}

theorem topup_leaves (session : Option String) (req : TopupReq) :
    (topup st session req).wp (Program.recording fun _ _ => True) Leaves Leaves [] := by
  have outs : Outs (Program.recording fun _ _ => True) (fun past => phase past = .quiet) Leaves := by
    refine ⟨fun _ _ _ => trivial, ?_, fun past answer waiting _ => waiting, ?_, ?_, fun past panics => (panics rfl).elim⟩
    · intro past command reply waiting open'
      change (phase past).next command reply = .quiet
      rw [waiting]
      cases command with
      | now => rfl
      | selectSolana addr => rfl
      | insertPayment hash addr chain token now =>
        cases reply with
        | ok => cases open'
        | error failure => rfl
      | _ => cases open'
    · exact fun past hash reply answer _ => rfl
    · exact fun past hash reply answer _ => rfl
  apply topup_outs outs session req
  · exact fun _ _ _ => trivial
  · exact fun past hash amount points reply answer _ => rfl
  · rfl

/-- Commands that leave every row and every balance alone. -/
def still : Command → Bool
  | .insertPayment .. | .rejectPayment _ | .deletePending _ | .creditPayment .. | .doCredit .. => false
  | _ => true

theorem next_still {phase : Phase} {command : Command} (reply : command.Reply) (stays : still command = true) :
    phase.next command reply = phase := by
  cases command with
  | insertPayment hash addr chain token now => cases stays
  | rejectPayment hash => cases stays
  | deletePending hash => cases stays
  | creditPayment hash amount points => cases stays
  | doCredit addr req => cases stays
  | _ => rfl

theorem handle_leaves (request : Request) : (handle st request).run.wp (Program.recording fun _ _ => True)
    (fun past result => ∀ answer, result = .ok answer ∨ result = .error answer → Leaves past answer) [] := by
  have quiet {handler : Handler Answer} (steps : handler.wp (Program.recording fun _ command => still command = true)
      (fun _ _ => True) (fun _ _ => True) []) : handler.run.wp (Program.recording fun _ _ => True)
      (fun past result => ∀ answer, result = .ok answer ∨ result = .error answer → Leaves past answer) [] := by
    have kept := Program.wp_recording_keeps (fun past => phase past = .quiet) (Handler.run_of_wp steps) rfl
      fun past command reply waiting stays => (next_still reply stays).trans waiting
    apply Program.wp_mono (Program.wp_recording_mono kept fun _ _ _ => trivial)
    exact fun past result holds answer _ _ => holds.2
  have gated : Gated fun _ command => still command = true := fun _ _ => ⟨rfl, rfl⟩
  cases request with
  | topup session req =>
    apply Program.wp_mono (Handler.run_of_wp (topup_leaves session req))
    intro past result holds answer same
    rcases same with rfl | rfl
    · exact holds
    · exact holds
  | link session req =>
    exact quiet (link_rule gated (fun _ => ⟨rfl, rfl⟩) (fun _ _ _ _ => rfl) fun _ => trivial)
  | unlink session => exact quiet (unlink_rule (fun _ _ => rfl) fun _ => trivial)
  | verifySolana req =>
    exact quiet (verifySolana_rule gated (fun _ => ⟨rfl, rfl, rfl⟩) (fun _ => rfl) (fun _ _ => rfl) fun _ _ => trivial)

end Discipline

/-! ## What one command does to the row and to the request -/

/-- How a step moves the row of a hash and the phase of the request that took it. -/
inductive Effect (hash : String) (before after : Phase) (was is : Option Status) (slip : Bool) : Prop where
  | keeps (row_kept : row after = some hash ↔ row before = some hash) (paid_kept : before = .paid hash → after = .paid hash)
      (same : is = was) (clean : slip = false)
  | locks (free : was = none) (holds : row after = some hash) (locked : is = some .pending) (clean : slip = false)
  | strays (free : was = none) (quiet : after = .quiet) (locked : is = some .pending) (slipped : slip = true)
  | stays (held : row before = some hash) (quiet : after = .quiet) (same : is = was) (slipped : slip = true)
  | ends (held : row before = some hash) (quiet : after = .quiet) (ended : is ≠ some .pending)
      (paid : before = .paid hash → is = some .credited) (clean : slip = false)

section Steps
variable {hash : String} {w : World} {choice : Choice} {past : History} {command : Command}

/-- Which row a statement is about. -/
def about : Command → Option String
  | .insertPayment hash .. | .rejectPayment hash | .deletePending hash | .creditPayment hash .. => some hash
  | _ => none

theorem serve_status_other (other : about command ≠ some hash) :
    status (serve w command choice).2 hash = status w hash := by
  rw [status, status]
  rcases serve_payment w command choice hash with
    same | ⟨_, _, _, _, rfl, _, _⟩ | ⟨rfl, _⟩ | ⟨_, _, rfl, _⟩ | ⟨rfl, _⟩
  · rw [same]
  · exact (other rfl).elim
  · exact (other rfl).elim
  · exact (other rfl).elim
  · exact (other rfl).elim

theorem status_some {found : Status} (status : status w hash = some found) :
    ∃ row, w.payments hash = some row ∧ row.status = found := Option.map_eq_some_iff.mp status

/-- A statement that ends a pending row does so unless it is refused. -/
theorem serve_status_ends {late : Option Status} (pending : status w hash = some .pending)
    (ends : command = .rejectPayment hash ∧ late = some .rejected ∨ command = .deletePending hash ∧ late = none ∨
      (∃ amount points, command = .creditPayment hash amount points) ∧ late = some .credited) :
    status (serve w command choice).2 hash = if choice.fault = .refused then status w hash else late := by
  obtain ⟨found, here, waits⟩ := status_some pending
  by_cases refused : choice.fault = .refused
  · rw [if_pos refused]
    rcases ends with ⟨rfl, _⟩ | ⟨rfl, _⟩ | ⟨⟨amount, points, rfl⟩, _⟩
    · rw [serve, refused]
      rfl
    · rw [serve, refused]
      rfl
    · rw [serve, refused]
      rfl
  · rw [if_neg refused]
    rcases ends with ⟨rfl, rfl⟩ | ⟨rfl, rfl⟩ | ⟨⟨amount, points, rfl⟩, rfl⟩
    · rw [serve, status, Fault.apply_of_reached refused, World.updateStatus, here]
      simp
    · rw [serve, status, Fault.apply_of_reached refused, World.deletePending, here]
      simp [waits]
    · rw [serve, status, Fault.apply_of_reached refused, World.updateStatus, here]
      simp

/-- An insert locks a free row, with or without its request's knowledge. -/
theorem serve_status_insert {addr chain token : String} {now : Nat} :
    let served := serve w (.insertPayment hash addr chain token now) choice
    w.payments hash = none ∧ choice.fault = .none ∧ served.1 = .ok () ∧ status served.2 hash = some .pending ∨
      w.payments hash = none ∧ choice.fault = .lost ∧ served.1.isOk = false ∧ status served.2 hash = some .pending ∨
      ¬ (w.payments hash = none ∧ choice.fault = .lost) ∧ served.1.isOk = false ∧ status served.2 hash = status w hash := by
  dsimp only
  cases fault : choice.fault with
  | refused =>
    refine .inr (.inr ⟨fun free => Fault.noConfusion free.2, ?_, ?_⟩)
    · rw [serve, fault]
      rfl
    · rw [serve, fault]
      rfl
  | none =>
    rw [serve, fault, World.insertPayment]
    cases here : w.payments hash with
    | none => exact .inl ⟨rfl, rfl, rfl, by simp [Fault.apply, status]⟩
    | some found => exact .inr (.inr ⟨by simp, rfl, rfl⟩)
  | lost =>
    rw [serve, fault, World.insertPayment]
    cases here : w.payments hash with
    | none => exact .inr (.inl ⟨rfl, rfl, rfl, by simp [Fault.apply, status]⟩)
    | some found => exact .inr (.inr ⟨by simp, rfl, rfl⟩)

end Steps

section Effects
variable {hash : String} {w : World} {choice : Choice} {past : History}

theorem next_insert_failed {phase : Phase} {addr chain token : String} {now : Nat} {reply : Except Failure Unit}
    (failed : reply.isOk = false) : phase.next (.insertPayment hash addr chain token now) reply = phase := by
  cases reply with
  | ok => cases failed
  | error failure => rfl

/-- A request ends the row it holds. -/
theorem ending_effect {command : Command} {reply : command.Reply} {other : String} {late : Option Status}
    (held : row (phase past) = some other) (quiet : phase (⟨command, reply⟩ :: past) = .quiet)
    (pending : row (phase past) = some hash → status w hash = some .pending)
    (ends : command = .rejectPayment other ∧ late = some .rejected ∨ command = .deletePending other ∧ late = none ∨
      (∃ amount points, command = .creditPayment other amount points) ∧ late = some .credited)
    (paid : phase past = .paid other → late = some .credited)
    (slip : slips hash ⟨w, command, choice, reply⟩ = (decide (other = hash) && decide (choice.fault = .refused))) :
    Effect hash (phase past) (phase (⟨command, reply⟩ :: past)) (status w hash) (status (serve w command choice).2 hash)
      (slips hash ⟨w, command, choice, reply⟩) := by
  by_cases same : other = hash
  · subst same
    rw [decide_eq_true rfl, Bool.true_and] at slip
    have waiting := pending held
    have after : status (serve w command choice).2 other = _ := serve_status_ends waiting ends
    by_cases refused : choice.fault = .refused
    · rw [if_pos refused] at after
      rw [decide_eq_true refused] at slip
      exact .stays held quiet after slip
    · rw [if_neg refused] at after
      rw [decide_eq_false refused] at slip
      refine .ends held quiet ?_ (fun credited => after.trans (paid credited)) slip
      rw [after]
      rcases ends with ⟨_, rfl⟩ | ⟨_, rfl⟩ | ⟨_, rfl⟩ <;> simp
  · rw [decide_eq_false same, Bool.false_and] at slip
    refine .keeps ?_ ?_ (serve_status_other ?_) slip
    · rw [quiet, held]
      exact iff_of_false (by simp [row]) (by simpa using same)
    · intro paid
      rw [paid] at held
      exact (same (Option.some.inj held).symm).elim
    · rcases ends with ⟨rfl, _⟩ | ⟨rfl, _⟩ | ⟨⟨_, _, rfl⟩, _⟩ <;> exact fun names => same (Option.some.inj names)

theorem slips_insert {other addr chain token : String} {now : Nat} {reply : Except Failure Unit} :
    slips hash ⟨w, .insertPayment other addr chain token now, choice, reply⟩ =
      (decide (other = hash) && (w.payments hash).isNone && decide (choice.fault = .lost)) := rfl

theorem insert_effect {other addr chain token : String} {now : Nat} (waiting : phase past = .quiet) :
    let served := serve w (.insertPayment other addr chain token now) choice
    Effect hash (phase past) (phase (⟨.insertPayment other addr chain token now, served.1⟩ :: past)) (status w hash)
      (status served.2 hash) (slips hash ⟨w, .insertPayment other addr chain token now, choice, served.1⟩) := by
  intro served
  have failed {reply : Except Failure Unit} (answer : reply.isOk = false) :
      phase (⟨.insertPayment other addr chain token now, reply⟩ :: past) = phase past := next_insert_failed answer
  by_cases same : other = hash
  · subst same
    rcases serve_status_insert with ⟨free, arrived, answer, locked⟩ | ⟨free, lost, answer, locked⟩ | ⟨kept, answer, same⟩
    · refine .locks ?_ ?_ locked (by simp [slips_insert, arrived])
      · rw [status, free]
        rfl
      · have answered : served.1 = .ok () := answer
        rw [answered]
        rfl
    · refine .strays ?_ ((failed answer).trans waiting) locked (by simp [slips_insert, free, lost])
      rw [status, free]
      rfl
    · refine .keeps ?_ ?_ same ?_
      · rw [failed answer]
      · rw [failed answer]
        exact id
      · rw [slips_insert]
        simpa using kept
  · refine .keeps ?_ ?_ (serve_status_other fun names => same (Option.some.inj names)) ?_
    · rw [waiting]
      cases served.1 with
      | ok => exact iff_of_false (fun names => same (Option.some.inj names)) (by simp [row])
      | error failure =>
        rw [failed rfl, waiting]
    · intro paid
      cases waiting.symm.trans paid
    · rw [slips_insert, decide_eq_false same]
      rfl

end Effects

theorem settles_effect {hash : String} {w : World} {choice : Choice} {past : History} {command : Command}
    (asks : Settles past command) (pending : row (phase past) = some hash → status w hash = some .pending) :
    Effect hash (phase past) (phase (⟨command, (serve w command choice).1⟩ :: past)) (status w hash)
      (status (serve w command choice).2 hash) (slips hash ⟨w, command, choice, (serve w command choice).1⟩) := by
  cases command with
  | insertPayment other addr chain token now => exact insert_effect asks
  | rejectPayment other =>
    obtain ⟨addr, holding⟩ := asks
    have held := congrArg row holding
    refine ending_effect held rfl pending (.inl ⟨rfl, rfl⟩) ?_ rfl
    intro paid
    cases holding.symm.trans paid
  | deletePending other =>
    refine ending_effect (gives_of_settles asks) rfl pending (.inr (.inl ⟨rfl, rfl⟩)) ?_ rfl
    intro paid
    rcases asks with ⟨addr, holding⟩ | failed
    · cases holding.symm.trans paid
    · cases failed.symm.trans paid
  | creditPayment other amount points =>
    obtain ⟨addr, req, resp, rest, rfl, holding, _⟩ := asks
    refine ending_effect ?_ rfl pending (.inr (.inr ⟨⟨amount, points, rfl⟩, rfl⟩)) (fun _ => rfl) rfl
    exact credit_row.trans (congrArg row holding)
  | doCredit addr req =>
    obtain ⟨other, holding, _⟩ := asks
    refine .keeps ?_ ?_ (serve_status_other (by simp [about])) rfl
    · exact iff_of_eq (congrArg (· = some hash) credit_row)
    · intro paid
      cases holding.symm.trans paid
  | _ => exact .keeps Iff.rfl id (serve_status_other (by simp [about])) rfl

/-! ## Runs -/

/-- A row is pending while a request holds it, or for good once a statement
slipped; an answered credit is recorded, or will be. -/
structure Tended (hash : String) (own : Nat → History) (log : List Served) (w : World) : Prop where
  alone : ∀ i j, row (phase (own i)) = some hash → row (phase (own j)) = some hash → i = j
  held : ∀ i, row (phase (own i)) = some hash → status w hash = some .pending ∧ log.any (slips hash) = false
  left : status w hash = some .pending → (∃ i, row (phase (own i)) = some hash) ∨ log.any (slips hash) = true
  stuck : log.any (slips hash) = true → status w hash = some .pending
  paid : ∀ i addr req resp, ⟨.doCredit addr req, .ok resp⟩ ∈ own i → req.key = "tx:" ++ hash →
    phase (own i) = .paid hash ∨ status w hash = some .credited ∨ log.any (slips hash) = true

section Run
variable {hash : String} {own : Nat → History} {log : List Served} {w late : World} {i : Nat} {served : Served}
  {exchange : Exchange Command Command.Reply}

theorem extend_phase (own : Nat → History) (i j : Nat) (exchange : Exchange Command Command.Reply) :
    i = j ∧ phase (Pool.extend own i exchange j) = phase (exchange :: own i) ∨
      i ≠ j ∧ phase (Pool.extend own i exchange j) = phase (own j) := by
  rcases Pool.extend_cases own i j exchange with ⟨rfl, whole⟩ | ⟨different, whole⟩
  · exact .inl ⟨rfl, congrArg phase whole⟩
  · exact .inr ⟨different, congrArg phase whole⟩

/-- A credit just answered leaves its request to record it. -/
def Records (hash : String) (past : History) (exchange : Exchange Command Command.Reply) : Prop :=
  ∀ addr req resp, ⟨.doCredit addr req, .ok resp⟩ = exchange → req.key = "tx:" ++ hash → phase (exchange :: past) = .paid hash

theorem any_clean (clean : slips hash served = false) : (served :: log).any (slips hash) = log.any (slips hash) := by
  rw [List.any_cons, clean, Bool.false_or]

theorem any_slipped (slipped : slips hash served = true) : (served :: log).any (slips hash) = true := by
  rw [List.any_cons, slipped, Bool.true_or]

/-- Nobody holds the row once its holder has given it up. -/
theorem nobody (others : ∀ j, row (phase (own j)) = some hash → i = j) (quiet : phase (exchange :: own i) = .quiet)
    (j : Nat) : row (phase (Pool.extend own i exchange j)) ≠ some hash := by
  intro holds
  rcases extend_phase own i j exchange with ⟨rfl, whole⟩ | ⟨different, whole⟩
  · rw [whole, quiet] at holds
    cases holds
  · exact different (others j ((congrArg row whole).symm.trans holds))

theorem tended_of_slip (others : ∀ j, row (phase (own j)) = some hash → i = j) (quiet : phase (exchange :: own i) = .quiet)
    (pending : status late hash = some .pending) (slipped : slips hash served = true) :
    Tended hash (Pool.extend own i exchange) (served :: log) late := by
  refine ⟨?_, ?_, ?_, ?_, ?_⟩
  · exact fun j _ holds => (nobody others quiet j holds).elim
  · exact fun j holds => (nobody others quiet j holds).elim
  · exact fun _ => .inr (any_slipped slipped)
  · exact fun _ => pending
  · exact fun _ _ _ _ _ _ => .inr (.inr (any_slipped slipped))

namespace Tended
variable (tended : Tended hash own log w)
include tended

theorem free (free : status w hash = none) (j : Nat) : row (phase (own j)) ≠ some hash := by
  intro holds
  cases free.symm.trans (tended.held j holds).1

theorem unslipped_of_free (free : status w hash = none) : log.any (slips hash) = false := by
  rw [← Bool.not_eq_true]
  intro slipped
  cases free.symm.trans (tended.stuck slipped)

theorem keeps (row_kept : row (phase (exchange :: own i)) = some hash ↔ row (phase (own i)) = some hash)
    (paid_kept : phase (own i) = .paid hash → phase (exchange :: own i) = .paid hash)
    (same : status late hash = status w hash) (clean : slips hash served = false) (records : Records hash (own i) exchange) :
    Tended hash (Pool.extend own i exchange) (served :: log) late := by
  have rows (j : Nat) : row (phase (Pool.extend own i exchange j)) = some hash ↔ row (phase (own j)) = some hash := by
    rcases extend_phase own i j exchange with ⟨rfl, whole⟩ | ⟨_, whole⟩
    · rw [whole]
      exact row_kept
    · rw [whole]
  refine ⟨?_, ?_, ?_, ?_, ?_⟩
  · intro j k first second
    exact tended.alone j k ((rows j).mp first) ((rows k).mp second)
  · intro j holds
    rw [any_clean clean, same]
    exact tended.held j ((rows j).mp holds)
  · intro pending
    rw [any_clean clean]
    rw [same] at pending
    exact (tended.left pending).imp_left fun ⟨j, holds⟩ => ⟨j, (rows j).mpr holds⟩
  · intro slipped
    rw [any_clean clean] at slipped
    rw [same]
    exact tended.stuck slipped
  · intro j addr req resp member key
    rw [any_clean clean, same]
    rcases Pool.mem_extend member with ⟨rfl, answer⟩ | before
    · rcases extend_phase own i i exchange with ⟨_, whole⟩ | ⟨different, _⟩
      · exact .inl (whole.trans (records addr req resp answer key))
      · exact (different rfl).elim
    · refine (tended.paid j addr req resp before key).imp_left fun paid => ?_
      rcases extend_phase own i j exchange with ⟨rfl, whole⟩ | ⟨_, whole⟩
      · exact whole.trans (paid_kept paid)
      · exact whole.trans paid

theorem locks (free : status w hash = none) (holds : row (phase (exchange :: own i)) = some hash)
    (locked : status late hash = some .pending) (clean : slips hash served = false) (records : Records hash (own i) exchange) :
    Tended hash (Pool.extend own i exchange) (served :: log) late := by
  have unslipped := tended.unslipped_of_free free
  have mine {j : Nat} (taken : row (phase (Pool.extend own i exchange j)) = some hash) : i = j := by
    rcases extend_phase own i j exchange with ⟨same, _⟩ | ⟨_, whole⟩
    · exact same
    · exact (tended.free free j ((congrArg row whole).symm.trans taken)).elim
  refine ⟨?_, ?_, ?_, ?_, ?_⟩
  · intro j k first second
    exact (mine first).symm.trans (mine second)
  · intro j _
    exact ⟨locked, (any_clean clean).trans unslipped⟩
  · intro _
    rcases extend_phase own i i exchange with ⟨_, whole⟩ | ⟨different, _⟩
    · exact .inl ⟨i, (congrArg row whole).trans holds⟩
    · exact (different rfl).elim
  · intro slipped
    cases ((any_clean clean).trans unslipped).symm.trans slipped
  · intro j addr req resp member key
    rcases Pool.mem_extend member with ⟨rfl, answer⟩ | before
    · rcases extend_phase own i i exchange with ⟨_, whole⟩ | ⟨different, _⟩
      · exact .inl (whole.trans (records addr req resp answer key))
      · exact (different rfl).elim
    · rcases tended.paid j addr req resp before key with paid | credited | slipped
      · exact (tended.free free j (congrArg row paid)).elim
      · cases free.symm.trans credited
      · cases unslipped.symm.trans slipped

theorem ends (held : row (phase (own i)) = some hash) (quiet : phase (exchange :: own i) = .quiet)
    (ended : status late hash ≠ some .pending) (paid : phase (own i) = .paid hash → status late hash = some .credited)
    (clean : slips hash served = false) (records : Records hash (own i) exchange) :
    Tended hash (Pool.extend own i exchange) (served :: log) late := by
  obtain ⟨waiting, unslipped⟩ := tended.held i held
  refine ⟨?_, ?_, ?_, ?_, ?_⟩
  · exact fun j _ holds => (nobody (tended.alone i · held) quiet j holds).elim
  · exact fun j holds => (nobody (tended.alone i · held) quiet j holds).elim
  · exact fun pending => (ended pending).elim
  · intro slipped
    cases ((any_clean clean).trans unslipped).symm.trans slipped
  · intro j addr req resp member key
    rcases Pool.mem_extend member with ⟨rfl, answer⟩ | before
    · cases quiet.symm.trans (records addr req resp answer key)
    · rcases tended.paid j addr req resp before key with credit | credited | slipped
      · cases tended.alone i j held (congrArg row credit)
        exact .inr (.inl (paid credit))
      · cases waiting.symm.trans credited
      · cases unslipped.symm.trans slipped

theorem step (effect : Effect hash (phase (own i)) (phase (exchange :: own i)) (status w hash) (status late hash)
    (slips hash served)) (records : Records hash (own i) exchange) :
    Tended hash (Pool.extend own i exchange) (served :: log) late := by
  cases effect with
  | keeps row_kept paid_kept same clean => exact tended.keeps row_kept paid_kept same clean records
  | locks free holds locked clean => exact tended.locks free holds locked clean records
  | strays free quiet locked slipped => exact tended_of_slip (fun j holds => (tended.free free j holds).elim) quiet locked slipped
  | stays held quiet same slipped =>
    exact tended_of_slip (tended.alone i · held) quiet (same.trans (tended.held i held).1) slipped
  | ends held quiet ended paid clean => exact tended.ends held quiet ended paid clean records

end Tended

theorem settles_records {command : Command} {reply : command.Reply} (asks : Settles (own i) command) :
    Records hash (own i) ⟨command, reply⟩ := by
  intro addr req resp answer key
  obtain ⟨rfl, answered⟩ := Sigma.mk.inj answer
  obtain ⟨other, holding, named⟩ := asks
  obtain rfl := eq_of_heq answered
  cases key_inj (named.symm.trans key)
  change (phase (own i)).credit true = _
  rw [holding]
  rfl

end Run

/-- A request that holds the row of a hash has inserted it. -/
def Inserts (hash : String) (past : History) : Prop :=
  ∃ addr chain token now, ⟨.insertPayment hash addr chain token now, .ok ()⟩ ∈ past

theorem inserts_of_row {hash : String} {past : History} (holds : row (phase past) = some hash) : Inserts hash past := by
  induction past with
  | nil => cases holds
  | cons exchange rest ih =>
    obtain ⟨command, reply⟩ := exchange
    rcases next_row holds with ⟨addr, chain, token, now, same⟩ | ⟨before, _⟩
    · exact ⟨addr, chain, token, now, same ▸ List.mem_cons_self⟩
    · obtain ⟨addr, chain, token, now, member⟩ := ih before
      exact ⟨addr, chain, token, now, List.mem_cons_of_mem _ member⟩

def answerOf : Program Command Command.Reply (Except Answer Answer) → Option Answer
  | .pure (.ok answer) | .pure (.error answer) => some answer
  | .call .. => none

/-- The request has answered; one that panicked never does. -/
def Answered (program : Program Command Command.Reply (Except Answer Answer)) : Prop :=
  ∃ answer, answerOf program = some answer ∧ answer ≠ .panic

/-- In every interleaving of requests, whatever fails, once those that inserted
the row of a hash have answered, it is not left pending and every answered credit
is recorded, if and only if no statement about it slipped. -/
theorem lock_released_iff (st : AppState) (start : World) (hash : String) (settled : status start hash ≠ some .pending)
    {past : Pool.Past Command Command.Reply (Except Answer Answer) World Request Choice}
    {pool : Pool Command Command.Reply (Except Answer Answer) World}
    (run : (machine st start).Run (fun _ _ _ => True) ⟨start, []⟩ past pool)
    (answered : ∀ (i : Nat) program, pool.threads[i]? = some program → Inserts hash (Pool.own i past) → Answered program) :
    (status pool.world hash ≠ some .pending ∧
      ∀ i addr req resp, ⟨.doCredit addr req, .ok resp⟩ ∈ Pool.own i past → req.key = "tx:" ++ hash →
        status pool.world hash = some .credited) ↔
      ∀ served ∈ Pool.log past, slips hash served = false := by
  have tended : Tended hash (fun i => Pool.own i past) (Pool.log past) pool.world := by
    have served : (machine st start).Run (Pool.serving serve (launch st) fun _ _ => True) ⟨start, []⟩ past pool :=
      run.weaken fun _ _ _ _ _ _ => trivial
    apply Pool.own_invariant served launch_settles
    · refine ⟨fun _ _ holds => ?_, fun _ holds => ?_, fun pending => ?_, fun slipped => ?_, fun _ _ _ _ member => ?_⟩
      · cases holds
      · cases holds
      · exact (settled pending).elim
      · cases slipped
      · cases member
    · intro own log w i command choice tended asks _
      exact tended.step (settles_effect asks fun holds => (tended.held i holds).1) (settles_records asks)
  have released (i : Nat) : row (phase (Pool.own i past)) ≠ some hash := by
    intro holds
    have kept := Pool.disciplined run handle_leaves
    cases found : pool.threads[i]? with
    | none =>
      rw [kept.unborn i (List.getElem?_eq_none_iff.mp found)] at holds
      cases holds
    | some program =>
      have ended := answered i program found (inserts_of_row holds)
      have leaves := kept.typed i program found
      obtain ⟨answer, given, calm⟩ := ended
      cases program with
      | call command next => cases given
      | pure result =>
        have quiet : phase (Pool.own i past) = .quiet := by
          cases result with
          | ok early =>
            cases given
            exact leaves answer (.inl rfl) calm
          | error early =>
            cases given
            exact leaves answer (.inr rfl) calm
        rw [quiet] at holds
        cases holds
  have stuck_iff : status pool.world hash = some .pending ↔ (Pool.log past).any (slips hash) = true := by
    constructor
    · intro pending
      rcases tended.left pending with ⟨i, holds⟩ | slipped
      · exact (released i holds).elim
      · exact slipped
    · exact tended.stuck
  have clean_iff : (∀ served ∈ Pool.log past, slips hash served = false) ↔ (Pool.log past).any (slips hash) = false := by
    simp [List.any_eq_false]
  rw [clean_iff]
  constructor
  · rintro ⟨unlocked, _⟩
    rw [Ne, stuck_iff, Bool.not_eq_true] at unlocked
    exact unlocked
  · intro clean
    refine ⟨?_, ?_⟩
    · rw [Ne, stuck_iff, clean]
      exact Bool.false_ne_true
    · intro i addr req resp member key
      rcases tended.paid i addr req resp member key with paid | credited | slipped
      · exact (released i (congrArg row paid)).elim
      · exact credited
      · cases clean.symm.trans slipped

section Example

/-- Up to the node's answer, which does not come. -/
def unanswered (thread : Nat) (cleanup : Fault) : List (Turn Request Choice) :=
  .spawn (submitted (account 'a')) :: List.replicate 4 (.advance thread ⟨.none, 0, .failed⟩) ++
    [.advance thread ⟨cleanup, 0, .failed⟩]

/-- The node is down and so is the database when the row is to be deleted: the
transaction can never be submitted again. -/
theorem lock_left_behind :
    let turns := unanswered 0 .refused ++ [.spawn (submitted (account 'a'))] ++ serves 1 3
    let run := (machine sampleState sampleStart).play ([], ⟨sampleStart, []⟩) turns
    status sampleStart sampleSignature = none ∧
      (machine sampleState sampleStart).Run (fun _ _ _ => True) ⟨sampleStart, []⟩ run.1 run.2 ∧
      run.2.threads.map answerOf =
        [some (apiErr 502 "rpc unavailable, retry later"), some (apiErr 409 "tx already submitted")] ∧
      status run.2.world sampleSignature = some .pending := by
  intro turns run
  refine ⟨rfl, Machine.Run.play .start turns (Machine.permitted_always (fun _ _ _ => trivial) _ turns), ?_⟩
  decide +kernel

theorem lock_released_iff_resubmitted :
    let turns := unanswered 0 .none ++ [.spawn (submitted (account 'a'))] ++ serves 1 6
    let run := (machine sampleState sampleStart).play ([], ⟨sampleStart, []⟩) turns
    status run.2.world sampleSignature ≠ some .pending ∧
      ∀ i addr req resp, ⟨.doCredit addr req, .ok resp⟩ ∈ Pool.own i run.1 → req.key = "tx:" ++ sampleSignature →
        status run.2.world sampleSignature = some .credited := by
  intro turns run
  have ran : (machine sampleState sampleStart).Run (fun _ _ _ => True) ⟨sampleStart, []⟩ run.1 run.2 :=
    Machine.Run.play .start turns (Machine.permitted_always (fun _ _ _ => trivial) _ turns)
  have observed : run.2.threads.map answerOf =
      [some (apiErr 502 "rpc unavailable, retry later"), some (.response 200 (.topup 10000 10000))] ∧
        ∀ served ∈ Pool.log run.1, slips sampleSignature served = false := by decide +kernel
  obtain ⟨answers, released⟩ := observed
  have answered : ∀ (i : Nat) program, run.2.threads[i]? = some program → Inserts sampleSignature (Pool.own i run.1) →
      Answered program := by
    intro i program found _
    have member : answerOf program ∈ run.2.threads.map answerOf := List.mem_map_of_mem (List.mem_of_getElem? found)
    rw [answers, List.mem_cons, List.mem_singleton] at member
    rcases member with same | same
    · exact ⟨_, same, by simp [apiErr]⟩
    · exact ⟨_, same, by simp⟩
  exact (lock_released_iff sampleState sampleStart sampleSignature (by simp [status, sampleStart]) ran answered).mpr released

end Example

end LetsEmbed.Worker
