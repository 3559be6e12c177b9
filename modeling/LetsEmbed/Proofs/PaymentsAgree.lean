import LetsEmbed.Proofs.PaymentsAlone
import LetsEmbed.Proofs.PaymentsOnce

/-! The record of a top-up and the account it credits. A request writes the points
it computed itself, whether or not its credit is the one that was applied, so
the two agree while no repeated credit carries other points than the first. -/

namespace LetsEmbed.Worker
open Account Auth Payments SolanaLink Systems

/-- What an account takes in at its first credit under a key. -/
def applied (addr key : String) (served : Served) : Option CreditReq :=
  match served.command with
  | .doCredit other req =>
    if other = addr ∧ req.key = key ∧ served.choice.fault ≠ .refused ∧
      ((served.world.accounts addr).credit key).isNone then some req
    else none
  | _ => none

/-- By how much the balance moved then. -/
def gain (addr key : String) (served : Served) : Option Int :=
  (applied addr key served).map fun _ =>
    ((serve served.world served.command served.choice).2.accounts addr).getBalance -
      (served.world.accounts addr).getBalance

/-- The points the account object added for a key. -/
def added (addr key : String) (log : List Served) : Option Int := log.findSome? (gain addr key)

/-- A first credit fits into the balance, and an answered repetition carries the
points of the first. -/
def steady (hash : String) (log : List Served) (served : Served) : Bool :=
  match served.command with
  | .doCredit addr req =>
    decide (req.key ≠ "tx:" ++ hash) || decide (served.choice.fault = .refused) ||
      match log.findSome? (applied addr req.key) with
      | none =>
        let balance := (served.world.accounts addr).getBalance + req.points
        decide (0 ≤ balance) && decide (balance ≤ Rust.i64Max)
      | some first => decide (served.choice.fault = .lost) || decide (req.points = first.points)
  | _ => true

def Settles (past : History) : Command → Prop
  | .insertPayment .. => phase past = .quiet
  | .rejectPayment hash => ∃ addr, phase past = .holding addr hash
  | .deletePending hash => (∃ addr, phase past = .holding addr hash) ∨ phase past = .failed hash
  | .doCredit addr req => ∃ hash, phase past = .holding addr hash ∧ req.key = "tx:" ++ hash
  | .creditPayment hash _ points => ∃ addr req resp rest, past = ⟨.doCredit addr req, .ok resp⟩ :: rest ∧
      phase rest = .holding addr hash ∧ req.key = "tx:" ++ hash ∧ req.points = points
  | _ => True

/-- The two statements a top-up ends in. -/
def Finalizes (past : History) (addr hash : String) (points : Int) : Prop :=
  ∃ amount reply req resp rest,
    past = ⟨.creditPayment hash amount points, reply⟩ :: ⟨.doCredit addr req, .ok resp⟩ :: rest ∧
    req.key = "tx:" ++ hash ∧ req.points = points

def Ends (past : History) (answer : Answer) : Prop :=
  ∀ points balance, answer = .response 200 (.topup points balance) → ∃ addr hash, Finalizes past addr hash points

section Discipline
variable {st : AppState}

/-- Nothing is credited before it is verified. -/
def Unpaid : Command → Prop
  | .creditPayment .. => False
  | _ => True

theorem earn_settles {session : Option String} {req : TopupReq} {addr : String} {spec : Config.TokenSpec} {text : String} :
    (earn st addr spec text).wp (Program.recording Settles)
      (fun past earned => phase past = .holding addr earned.hash) (fun _ _ => True) [] := by
  have justified := @earn_leads st session req [] addr spec text rfl
  have unpaid : (earn st addr spec text).wp (Program.recording fun _ command => Unpaid command) (fun _ _ => True)
      (fun _ _ => True) [] := by
    apply earn_free
    intro past command known
    cases command with
    | creditPayment hash amount points => cases known
    | _ => trivial
  apply Handler.wp_mono (Handler.wp_recording_mono (Handler.wp_recording_and justified unpaid) ?_)
  · exact fun past earned holds => holds.1.1
  · exact fun _ _ _ => trivial
  · rintro past command ⟨justified, unpaid⟩
    cases command with
    | creditPayment hash amount points => exact unpaid.elim
    | doCredit other credit =>
      obtain ⟨spec, earned, holds, _, _, _, _, rfl⟩ := justified
      exact ⟨earned.hash, holds, rfl⟩
    | insertPayment hash other chain token now => exact justified
    | rejectPayment hash => exact justified
    | deletePending hash => exact justified
    | _ => trivial

theorem finalizeCredit_settles {past : History} {addr : String} {earned : Earned}
    (holds : phase past = .holding addr earned.hash) :
    (finalizeCredit addr earned).wp (Program.recording Settles) Ends (fun _ _ => True) past := by
  simp only [finalizeCredit, Handler.wp_bind, Handler.wp_perform]
  refine Program.step_recording.mpr ⟨⟨earned.hash, holds, rfl⟩, fun reply => ?_⟩
  cases reply with
  | error failure =>
    apply release_rule
    refine Program.step_recording.mpr ⟨.inr ?_, fun _ _ => trivial⟩
    change (phase past).credit false = _
    rw [holds]
    rfl
  | ok resp =>
    simp only [Handler.wp_bind, Handler.wp_perform, Handler.wp_pure]
    refine Program.step_recording.mpr ⟨⟨addr, _, resp, past, rfl, holds, rfl, rfl⟩, fun reply points balance same => ?_⟩
    cases same
    exact ⟨addr, earned.hash, earned.amount, reply, _, resp, past, rfl, rfl, rfl⟩

theorem topup_settles (session : Option String) (req : TopupReq) :
    (topup st session req).wp (Program.recording Settles) Ends (fun _ _ => True) [] := by
  unfold topup
  cases session with
  | none => exact (Handler.wp_throw _).mpr trivial
  | some addr =>
    dsimp only
    cases resolveSpec st req with
    | error message => exact (Handler.wp_throw _).mpr trivial
    | ok spec =>
      rw [Handler.wp_bind]
      apply Handler.wp_mono (@earn_settles _ (some addr) req addr spec req.txHash)
      · exact fun _ _ holds => finalizeCredit_settles holds
      · exact fun _ _ => id

theorem launch_settles (request : Request) : (launch st request).wp (Program.recording Settles)
    (fun past result => ∀ answer, result = .ok answer → Ends past answer) [] := by
  have gated : Gated Settles := fun _ _ => ⟨trivial, trivial⟩
  have handled : (handle st request).wp (Program.recording Settles) Ends (fun _ _ => True) [] := by
    cases request with
    | topup session req => exact topup_settles session req
    | link session req =>
      apply link_rule gated (fun _ => ⟨trivial, trivial⟩) fun _ _ _ _ => trivial
      intro late points balance same
      cases same
    | unlink session =>
      apply unlink_rule fun _ _ => trivial
      intro late points balance same
      cases same
    | verifySolana req =>
      apply verifySolana_rule gated (fun _ => ⟨trivial, trivial, trivial⟩) (fun _ => trivial) fun _ _ => trivial
      intro late now points balance same
      cases same
  apply Program.wp_mono (Handler.run_of_wp handled)
  intro past result holds answer same
  rw [same] at holds
  exact holds

end Discipline

/-! ## What a credit adds -/

section Credits
variable {hash : String} {log : List Served} {w : World} {choice : Choice} {command : Command}

theorem applied_eq_some {addr key : String} {req : CreditReq} {reply : command.Reply} :
    applied addr key ⟨w, command, choice, reply⟩ = some req ↔
      command = .doCredit addr req ∧ req.key = key ∧ choice.fault ≠ .refused ∧ ¬ marked w addr key := by
  cases command with
  | doCredit other credit =>
    change (if other = addr ∧ credit.key = key ∧ choice.fault ≠ .refused ∧ ((w.accounts addr).credit key).isNone then
      some credit else none) = some req ↔ _
    rw [Option.ite_none_right_eq_some, Option.some.injEq, marked, Bool.not_eq_true, Option.isSome_eq_false_iff,
      Command.doCredit.injEq]
    constructor
    · rintro ⟨⟨same, key, reached, unmarked⟩, rfl⟩
      exact ⟨⟨same, rfl⟩, key, reached, unmarked⟩
    · rintro ⟨⟨same, rfl⟩, key, reached, unmarked⟩
      exact ⟨⟨same, key, reached, unmarked⟩, rfl⟩
  | _ =>
    constructor
    · intro found
      cases found
    · rintro ⟨same, _⟩
      cases same

/-- A first credit moves the balance by its points, if they fit. -/
theorem gain_of_fits {addr key : String} {req : CreditReq} {reply : command.Reply}
    (found : applied addr key ⟨w, command, choice, reply⟩ = some req)
    (low : 0 ≤ (w.accounts addr).getBalance + req.points)
    (high : (w.accounts addr).getBalance + req.points ≤ Rust.i64Max) :
    gain addr key ⟨w, command, choice, reply⟩ = some req.points := by
  obtain ⟨rfl, rfl, reached, unmarked⟩ := applied_eq_some.mp found
  have after : (serve w (.doCredit addr req) choice).2.accounts addr = (Account.credit (w.accounts addr) req).2 :=
    (congrArg (World.accounts · addr) (Fault.apply_of_reached reached)).trans (Function.update_self ..)
  have fits : Rust.i64 ((w.accounts addr).getBalance + req.points) = (w.accounts addr).getBalance + req.points :=
    Rust.i64_of_fits ⟨Int.le_trans (by decide) low, high⟩
  have balance : (Account.credit (w.accounts addr) req).2.getBalance = (w.accounts addr).getBalance + req.points := by
    rw [marked] at unmarked
    rw [Account.credit, if_neg unmarked, fits]
    exact Int.max_eq_left low
  rw [gain, found, Option.map_some, after, balance]
  dsimp only
  exact congrArg some (by omega)

/-- What an account was credited first, and that it was exactly that. -/
structure Ledger (key : String) (log : List Served) (w : World) : Prop where
  marks : ∀ addr, marked w addr key ↔ (log.findSome? (applied addr key)).isSome = true
  exact : ∀ addr first, log.findSome? (applied addr key) = some first → added addr key log = some first.points

variable {key : String}

theorem added_of_unapplied {addr : String} {served : Served} (none : applied addr key served = none) :
    added addr key (served :: log) = added addr key log := by
  rw [added, List.findSome?_cons, gain, none]
  rfl

theorem first_of_unapplied {addr : String} {served : Served} (none : applied addr key served = none) :
    (served :: log).findSome? (applied addr key) = log.findSome? (applied addr key) := by
  rw [List.findSome?_cons, none]

theorem Ledger.unapplied (ledger : Ledger key log w) {addr : String} {reply : command.Reply} {first : CreditReq}
    (before : log.findSome? (applied addr key) = some first) : applied addr key ⟨w, command, choice, reply⟩ = none := by
  cases now : applied addr key ⟨w, command, choice, reply⟩ with
  | none => rfl
  | some req =>
    obtain ⟨_, _, _, unmarked⟩ := applied_eq_some.mp now
    exact (unmarked ((ledger.marks addr).mpr (by rw [before]; rfl))).elim

/-- What an account has added stays what it was. -/
theorem Ledger.added_kept (ledger : Ledger key log w) {addr : String} {reply : command.Reply} {points : Int}
    (before : added addr key log = some points) : added addr key (⟨w, command, choice, reply⟩ :: log) = some points := by
  have once : ∃ first, log.findSome? (applied addr key) = some first := by
    obtain ⟨served, member, gained⟩ := List.exists_of_findSome?_eq_some before
    obtain ⟨req, found, _⟩ := Option.map_eq_some_iff.mp gained
    apply Option.isSome_iff_exists.mp
    rw [List.findSome?_isSome_iff]
    exact ⟨served, member, by rw [found]; rfl⟩
  obtain ⟨first, found⟩ := once
  rw [added_of_unapplied (ledger.unapplied found)]
  exact before

theorem steady_first {addr : String} {req : CreditReq} {reply : Except Failure BalanceResp}
    (fits : steady hash log ⟨w, .doCredit addr req, choice, reply⟩ = true) (key : req.key = "tx:" ++ hash)
    (reached : choice.fault ≠ .refused) (first : log.findSome? (applied addr req.key) = none) :
    0 ≤ (w.accounts addr).getBalance + req.points ∧ (w.accounts addr).getBalance + req.points ≤ Rust.i64Max := by
  rw [steady] at fits
  dsimp only at fits
  rw [decide_eq_false (not_not_intro key), decide_eq_false reached, first] at fits
  simpa using fits

theorem steady_again {addr : String} {req before : CreditReq} {reply : Except Failure BalanceResp}
    (fits : steady hash log ⟨w, .doCredit addr req, choice, reply⟩ = true) (key : req.key = "tx:" ++ hash)
    (arrived : choice.fault = .none) (first : log.findSome? (applied addr req.key) = some before) :
    req.points = before.points := by
  rw [steady] at fits
  dsimp only at fits
  rw [decide_eq_false (not_not_intro key), arrived, first] at fits
  simpa using fits

theorem Ledger.step (ledger : Ledger ("tx:" ++ hash) log w)
    (fits : steady hash log ⟨w, command, choice, (serve w command choice).1⟩ = true) :
    Ledger ("tx:" ++ hash) (⟨w, command, choice, (serve w command choice).1⟩ :: log) (serve w command choice).2 where
  marks addr := by
    rw [List.findSome?_cons]
    cases now : applied addr ("tx:" ++ hash) ⟨w, command, choice, (serve w command choice).1⟩ with
    | some req =>
      obtain ⟨rfl, key, reached, _⟩ := applied_eq_some.mp now
      exact iff_of_true ((serve_credit_marked reached).mpr (.inr ⟨rfl, key.symm⟩)) rfl
    | none =>
      rw [← ledger.marks addr]
      by_cases repeated : ∃ req, command = .doCredit addr req ∧ req.key = "tx:" ++ hash ∧ choice.fault ≠ .refused
      · obtain ⟨req, rfl, key, reached⟩ := repeated
        have marked : marked w addr ("tx:" ++ hash) := by
          apply Classical.not_not.mp
          intro unmarked
          cases now.symm.trans (applied_eq_some.mpr ⟨rfl, key, reached, unmarked⟩)
        exact iff_of_true ((serve_credit_marked reached).mpr (.inl marked)) marked
      · apply serve_marked
        intro req asked key
        exact Classical.not_not.mp fun reached => repeated ⟨req, asked, key, reached⟩
  exact addr first found := by
    cases now : applied addr ("tx:" ++ hash) ⟨w, command, choice, (serve w command choice).1⟩ with
    | none =>
      rw [first_of_unapplied now] at found
      rw [added_of_unapplied now]
      exact ledger.exact addr first found
    | some req =>
      rw [List.findSome?_cons, now, Option.some.injEq] at found
      subst found
      obtain ⟨rfl, key, reached, unmarked⟩ := applied_eq_some.mp now
      have fresh : log.findSome? (applied addr req.key) = none := by
        rw [key]
        exact Option.not_isSome_iff_eq_none.mp fun marked => unmarked ((ledger.marks addr).mpr marked)
      obtain ⟨low, high⟩ := steady_first fits key reached fresh
      rw [added, List.findSome?_cons, gain_of_fits now low high]

end Credits

section Invariant
variable {hash : String} {log : List Served} {w : World} {own : Nat → History} {i : Nat} {command : Command}
  {choice : Choice}

/-- The row of a hash is this account's: its credit is to come, or has come. -/
def Owns (past : History) (addr hash : String) : Prop :=
  phase past = .holding addr hash ∨
    ∃ req resp rest, past = ⟨.doCredit addr req, .ok resp⟩ :: rest ∧ phase rest = .holding addr hash

/-- The account has added these points for the hash. -/
def Added (log : List Served) (addr hash : String) (points : Int) : Prop := added addr ("tx:" ++ hash) log = some points

structure Agreed (hash : String) (own : Nat → History) (log : List Served) (w : World) : Prop where
  exists_row : ∀ i, row (phase (own i)) = some hash → w.payments hash ≠ none
  alone : ∀ i j, row (phase (own i)) = some hash → row (phase (own j)) = some hash → i = j
  owner : ∀ i addr, Owns (own i) addr hash → (w.payments hash).map (·.address) = some addr
  answered : ∀ i addr req resp, ⟨.doCredit addr req, .ok resp⟩ ∈ own i → req.key = "tx:" ++ hash →
    Added log addr hash req.points
  recorded : ∀ found, w.payments hash = some found → found.status = .credited → Added log found.address hash found.points
  ledger : Ledger ("tx:" ++ hash) log w

theorem row_of_owns {past : History} {addr : String} (owns : Owns past addr hash) : row (phase past) = some hash := by
  rcases owns with holding | ⟨req, resp, rest, rfl, holding⟩
  · exact congrArg row holding
  · exact credit_row.trans (congrArg row holding)

/-- A row changes hands only by being deleted. -/
theorem serve_address (row : w.payments hash ≠ none) (kept : command ≠ .deletePending hash) :
    ((serve w command choice).2.payments hash).map (·.address) = (w.payments hash).map (·.address) := by
  rcases serve_payment w command choice hash with same | ⟨_, _, _, _, _, free, _⟩ | ⟨_, same⟩ | ⟨_, _, _, same⟩ | ⟨deletes, _⟩
  · rw [same]
  · exact (row free).elim
  · rw [same, Option.map_map]
    rfl
  · rw [same, Option.map_map]
    rfl
  · exact (kept deletes).elim

theorem serve_insert_address {addr chain token : String} {now : Nat}
    (inserted : (⟨command, (serve w command choice).1⟩ : Exchange Command Command.Reply) =
      ⟨.insertPayment hash addr chain token now, .ok ()⟩) :
    ((serve w command choice).2.payments hash).map (·.address) = some addr := by
  obtain ⟨rfl, free, taken⟩ := serve_inserted inserted
  rcases serve_payment w (.insertPayment hash addr chain token now) choice hash with
    same | ⟨_, _, _, _, asked, _, same⟩ | ⟨asked, _⟩ | ⟨_, _, asked, _⟩ | ⟨asked, _⟩
  · exact (taken (same.trans free)).elim
  · cases asked
    rw [same]
    rfl
  · cases asked
  · cases asked
  · cases asked

theorem gives_of_settles {past : History} (asks : Settles past (.deletePending hash)) : row (phase past) = some hash := by
  rcases asks with ⟨addr, holding⟩ | failed
  · exact congrArg row holding
  · exact congrArg row failed

section Step
variable (holds : Agreed hash own log w)
include holds

theorem kept_by {j : Nat} (asks : Settles (own i) command) (different : i ≠ j) (taken : row (phase (own j)) = some hash) : command ≠ .deletePending hash := by
  rintro rfl
  exact different (holds.alone i j (gives_of_settles asks) taken)

theorem step_agreed_exists (asks : Settles (own i) command) (j : Nat)
    (taken : row (phase (Pool.extend own i ⟨command, (serve w command choice).1⟩ j)) = some hash) :
    (serve w command choice).2.payments hash ≠ none := by
  rcases Pool.extend_cases own i j ⟨command, (serve w command choice).1⟩ with ⟨rfl, whole⟩ | ⟨different, whole⟩
  · rw [whole] at taken
    rcases next_row taken with ⟨addr, chain, token, now, inserted⟩ | ⟨before, kept⟩
    · exact (serve_inserted inserted).2.2
    · exact serve_row (holds.exists_row i before) (kept hash)
  · rw [whole] at taken
    exact serve_row (holds.exists_row j taken) (kept_by holds asks different taken)

theorem step_agreed_alone (j k : Nat)
    (first : row (phase (Pool.extend own i ⟨command, (serve w command choice).1⟩ j)) = some hash)
    (second : row (phase (Pool.extend own i ⟨command, (serve w command choice).1⟩ k)) = some hash) : j = k := by
  have mine {k : Nat} (moved : row (phase (⟨command, (serve w command choice).1⟩ :: own i)) = some hash)
      (taken : row (phase (own k)) = some hash) : i = k := by
    rcases next_row moved with ⟨addr, chain, token, now, inserted⟩ | ⟨before, _⟩
    · exact (holds.exists_row k taken (serve_inserted inserted).2.1).elim
    · exact holds.alone i k before taken
  rcases Pool.extend_cases own i j ⟨command, (serve w command choice).1⟩ with ⟨rfl, whole⟩ | ⟨_, whole⟩
  · rw [whole] at first
    rcases Pool.extend_cases own i k ⟨command, (serve w command choice).1⟩ with ⟨same, _⟩ | ⟨_, whole⟩
    · exact same
    · rw [whole] at second
      exact mine first second
  · rw [whole] at first
    rcases Pool.extend_cases own i k ⟨command, (serve w command choice).1⟩ with ⟨rfl, whole⟩ | ⟨_, whole⟩
    · rw [whole] at second
      exact (mine second first).symm
    · rw [whole] at second
      exact holds.alone j k first second

theorem step_agreed_owner (asks : Settles (own i) command) (j : Nat) (addr : String)
    (owns : Owns (Pool.extend own i ⟨command, (serve w command choice).1⟩ j) addr hash) :
    ((serve w command choice).2.payments hash).map (·.address) = some addr := by
  have kept (before : Owns (own j) addr hash) (kept : command ≠ .deletePending hash) :
      ((serve w command choice).2.payments hash).map (·.address) = some addr :=
    (serve_address (holds.exists_row j (row_of_owns before)) kept).trans (holds.owner j addr before)
  rcases Pool.extend_cases own i j ⟨command, (serve w command choice).1⟩ with ⟨rfl, whole⟩ | ⟨different, whole⟩
  · rw [whole] at owns
    rcases owns with holding | ⟨req, resp, rest, same, holding⟩
    · rcases next_cases (phase (own i)) command (serve w command choice).1 with
        ⟨_, _, chain, token, now, inserted, next⟩ | quiet | ⟨credited, req, rfl⟩ | ⟨unmoved, others⟩
      · cases next.symm.trans holding
        exact serve_insert_address inserted
      · cases quiet.symm.trans holding
      · exact (credit_ne_holding holding).elim
      · exact kept (.inl (unmoved.symm.trans holding)) (others hash)
    · obtain ⟨asked, rfl⟩ := List.cons.inj same
      obtain ⟨rfl, _⟩ := Sigma.mk.inj asked
      exact kept (.inl holding) (by simp)
  · rw [whole] at owns
    exact kept owns (kept_by holds asks different (row_of_owns owns))

theorem step_answered {addr : String} {req : CreditReq} {resp : BalanceResp}
    (fits : steady hash log ⟨w, command, choice, (serve w command choice).1⟩ = true)
    (answer : (⟨.doCredit addr req, .ok resp⟩ : Exchange Command Command.Reply) = ⟨command, (serve w command choice).1⟩)
    (key : req.key = "tx:" ++ hash) :
    Added (⟨w, command, choice, (serve w command choice).1⟩ :: log) addr hash req.points := by
  obtain ⟨rfl, reply⟩ := Sigma.mk.inj answer
  have arrived : choice.fault = .none := by
    have arrives := @serve_credit_isOk w choice addr req
    rw [← eq_of_heq reply] at arrives
    exact of_decide_eq_true arrives.symm
  have reached : choice.fault ≠ .refused := by
    rw [arrived]
    decide
  cases first : log.findSome? (applied addr req.key) with
  | none =>
    obtain ⟨low, high⟩ := steady_first fits key reached first
    rw [key] at first
    have unmarked : ¬ marked w addr ("tx:" ++ hash) := by
      rw [holds.ledger.marks addr, first]
      exact Bool.false_ne_true
    rw [Added, added, List.findSome?_cons, gain_of_fits (applied_eq_some.mpr ⟨rfl, key, reached, unmarked⟩) low high]
  | some before =>
    rw [steady_again fits key arrived first]
    rw [key] at first
    exact holds.ledger.added_kept (holds.ledger.exact addr before first)

theorem step_recorded (asks : Settles (own i) command) {found : PaymentRow}
    (row : (serve w command choice).2.payments hash = some found) (credited : found.status = .credited) :
    Added log found.address hash found.points := by
  rcases serve_payment w command choice hash with
    same | ⟨_, _, _, _, _, _, same⟩ | ⟨_, same⟩ | ⟨amount, points, rfl, same⟩ | ⟨_, same⟩
  · exact holds.recorded found (same.symm.trans row) credited
  · cases same.symm.trans row
    cases credited
  · obtain ⟨before, _, rfl⟩ := Option.map_eq_some_iff.mp (same.symm.trans row)
    cases credited
  · obtain ⟨before, existing, rfl⟩ := Option.map_eq_some_iff.mp (same.symm.trans row)
    obtain ⟨addr, req, resp, rest, past, holding, key, rfl⟩ := asks
    have owner := holds.owner i addr (.inr ⟨req, resp, rest, past, holding⟩)
    rw [existing, Option.map_some, Option.some.injEq] at owner
    have answered := holds.answered i addr req resp (past ▸ List.mem_cons_self) key
    rw [← owner] at answered
    exact answered
  · cases same.symm.trans row

theorem step_agreed (asks : Settles (own i) command)
    (fits : steady hash log ⟨w, command, choice, (serve w command choice).1⟩ = true) :
    Agreed hash (Pool.extend own i ⟨command, (serve w command choice).1⟩)
      (⟨w, command, choice, (serve w command choice).1⟩ :: log) (serve w command choice).2 where
  exists_row := step_agreed_exists holds asks
  alone := step_agreed_alone holds
  owner := step_agreed_owner holds asks
  answered j addr req resp member key := by
    rcases Pool.mem_extend member with ⟨_, answer⟩ | before
    · exact step_answered holds fits answer key
    · exact holds.ledger.added_kept (holds.answered j addr req resp before key)
  recorded found row credited := holds.ledger.added_kept (step_recorded holds asks row credited)
  ledger := holds.ledger.step fits

end Step

end Invariant

/-- In every interleaving of requests, whatever is refused or lost and whatever
prices are read, the record of a hash and the points its submitters are told
are those its account added, so long as every answered repetition of a credit
carries the points of the first and the first fits into the balance. -/
theorem record_agrees (st : AppState) (start : World) (hash : String) (absent : start.payments hash = none)
    (fresh : ∀ addr, ¬ marked start addr ("tx:" ++ hash))
    {past : Pool.Past Command Command.Reply (Except Answer Answer) World Request Choice}
    {pool : Pool Command Command.Reply (Except Answer Answer) World}
    (run : (machine st start).Run (Pool.serving serve (launch st) fun log served => steady hash log served = true)
      ⟨start, []⟩ past pool) :
    (∀ found, pool.world.payments hash = some found → found.status = .credited →
      added found.address ("tx:" ++ hash) (Pool.log past) = some found.points) ∧
    ∀ i points balance, pool.threads[i]? = some (.pure (.ok (.response 200 (.topup points balance)))) →
      ∃ addr other, Finalizes (Pool.own i past) addr other points ∧
        (other = hash → added addr ("tx:" ++ hash) (Pool.log past) = some points) := by
  have agreed : Agreed hash (fun i => Pool.own i past) (Pool.log past) pool.world := by
    apply Pool.own_invariant run launch_settles
    · refine ⟨?_, ?_, ?_, ?_, ?_, ?_⟩
      · intro i taken
        cases taken
      · intro i j taken
        cases taken
      · rintro i addr (holding | ⟨req, resp, rest, same, _⟩)
        · cases holding
        · cases same
      · intro i addr req resp member
        cases member
      · intro found row
        cases absent.symm.trans row
      · exact ⟨fun addr => iff_of_false (fresh addr) Bool.false_ne_true, fun addr first found => by cases found⟩
    · exact fun choice holds asks fits => step_agreed holds asks fits
  refine ⟨agreed.recorded, ?_⟩
  intro i points balance finished
  have ended := (Pool.disciplined run launch_settles).typed i _ finished
  obtain ⟨addr, other, finalizes⟩ := ended _ rfl points balance rfl
  refine ⟨addr, other, finalizes, ?_⟩
  rintro rfl
  obtain ⟨amount, reply, req, resp, rest, whole, key, rfl⟩ := finalizes
  apply agreed.answered i addr req resp _ key
  rw [whole]
  exact List.mem_cons_of_mem _ List.mem_cons_self

section Example

def solSpec : Config.TokenSpec := ⟨.solana, "sol", 9, none, some Config.feedSolUsd⟩

def word (digits : List Char) : List Char := List.replicate (64 - digits.length) '0' ++ digits

/-- What the price feed answers at the sample time, in dollars with eight decimals. -/
def roundData (price : List Char) : String :=
  String.ofList ('0' :: 'x' :: word ['1'] ++ word price ++ word "6553f100".toList ++ word "6553f100".toList ++ word ['1'])

def sampleTime : Nat := 1700000000

/-- One SOL from the sample wallet. -/
def solTransfer : Json :=
  .obj [("meta", .obj [("err", .null), ("preBalances", .arr [.unsigned 3000000000, .unsigned 500000000]),
      ("postBalances", .arr [.unsigned 1999995000, .unsigned 1500000000])]),
    ("transaction", .obj [("message", .obj [("accountKeys",
      .arr [.str sampleWallet, .str sampleState.solDepositAddress])])])]

/-- Nodes that know the transfer and a price of SOL. -/
def quoting (price : List Char) : Node := fun url _ =>
  .answered 200 (some (.obj [("result", if url = sampleState.solRpcUrl then solTransfer else .str (roundData price))]))

/-- SOL is at 150 dollars, then at 200. -/
def quoted (again : Bool) : List Char := if again then "4a817c800".toList else "37e11d600".toList

def quotedPoints (again : Bool) : Int := if again then 2000000 else 1500000

theorem roundData_decoded (again : Bool) :
    Rates.decodeLatestRoundData (roundData (quoted again)) sampleTime =
      .ok (if again then 20000000000 else 15000000000) := by
  have text (chars : List Char) :
      Text.stripPrefix "0x" (String.ofList ('0' :: 'x' :: chars)) = some (String.ofList chars) := by
    rw [Text.stripPrefix_eq_some, String.toList_ofList, String.toList_ofList]
    simp
  rw [Rates.decodeLatestRoundData, roundData, List.cons_append, List.cons_append]
  simp only [List.cons_append, text, String.toList_ofList]
  cases again <;> decide +kernel

theorem quoting_verdict {w : World} (again : Bool) (users : w.users = sampleStart.users) :
    verdict sampleState (quoting (quoted again)) sampleTime (account 'a') solSpec sampleSignature w =
      .earned 1000000000 (quotedPoints again) := by
  have pays : payer w (account 'a') = some sampleWallet := by
    rw [payer, World.user, users]
    decide +kernel
  have final : (quoting (quoted again)).transaction sampleState sampleSignature = some solTransfer := rfl
  have moved : Solana.verifySolana solTransfer solSpec sampleState.solDepositAddress sampleWallet =
      .credited 1000000000 := by decide +kernel
  have priced : (quoting (quoted again)).price sampleState sampleTime solSpec =
      some (some (if again then 20000000000 else 15000000000)) := by
    change (((some (roundData (quoted again))).bind fun hex => (Rates.decodeLatestRoundData hex sampleTime).toOption)).map
      some = _
    rw [Option.bind_some, roundData_decoded]
    rfl
  have worthy : solanaVerdict sampleState (quoting (quoted again)) sampleTime solSpec sampleSignature sampleWallet =
      worth sampleState (quoting (quoted again)) sampleTime solSpec 1000000000 := by
    rw [solanaVerdict, final]
    dsimp only
    rw [moved]
  have comes : verdict sampleState (quoting (quoted again)) sampleTime (account 'a') solSpec sampleSignature w =
      solanaVerdict sampleState (quoting (quoted again)) sampleTime solSpec sampleSignature sampleWallet := by
    rw [verdict, pays]
    rfl
  have points : Rates.pointsFor 1000000000 solSpec.decimals (some (if again then 20000000000 else 15000000000)) =
      quotedPoints again := by cases again <;> decide +kernel
  have enough : Config.minTopupPoints ≤ quotedPoints again := by cases again <;> decide +kernel
  rw [comes, worthy, worth, priced]
  dsimp only
  rw [points, if_pos enough]

def crediting : Command → Bool
  | .doCredit .. => true
  | _ => false

/-- The response of the first credit is lost, and the price rises after it. -/
def sampleChoice (again : Bool) : Command → Choice
  | .doCredit .. => ⟨if again then .none else .lost, sampleTime, .failed⟩
  | command => undisturbed (quoting (quoted again)) sampleTime command

def asked (log : List Served) : Bool := log.any fun old => crediting old.command

def Resubmitting (log : List Served) (served : Served) : Prop := served.choice = sampleChoice (asked log) served.command

theorem quiet_of_verified {early : List Served} (verified : ∀ old ∈ early, verifies old.command = true) :
    asked early = false := by
  rw [asked, List.any_eq_false]
  intro old member credited
  have known := verified old member
  cases command : old.command with
  | doCredit addr req =>
    rw [command] at known
    cases known
  | _ =>
    rw [command] at credited
    cases credited

theorem asked_append (early log : List Served) : asked (early ++ log) = (asked early || asked log) := List.any_append

theorem added_of_gain {addr key : String} {log : List Served} {served : Served} {points : Int}
    (gained : gain addr key served = some points) : added addr key (served :: log) = some points := by
  rw [added, List.findSome?_cons, gained]

theorem added_of_none {addr key : String} {log : List Served} {served : Served} (none : gain addr key served = none) :
    added addr key (served :: log) = added addr key log := by
  rw [added, List.findSome?_cons, none]
  rfl

theorem gain_of_quiet {addr key : String} {served : Served} (quiet : crediting served.command = false) :
    gain addr key served = none := by
  obtain ⟨world, command, choice, reply⟩ := served
  cases command with
  | doCredit other req => cases quiet
  | _ => rfl

theorem resubmitting_verified {again : Bool} {log early : List Served} {served : Served}
    (asking : asked log = again) (verified : ∀ old ∈ early, verifies old.command = true)
    (known : verifies served.command = true)
    (chosen : served.choice = undisturbed (quoting (quoted again)) sampleTime served.command) :
    Resubmitting (early ++ log) served := by
  rw [Resubmitting, asked_append, quiet_of_verified verified, Bool.false_or, asking, chosen]
  cases command : served.command with
  | doCredit addr req =>
    rw [command] at known
    cases known
  | _ => rfl

def solTopup : TopupReq := ⟨"solana", "sol", sampleSignature⟩

def earnedSol (again : Bool) : Earned := ⟨sampleSignature, 1000000000, quotedPoints again⟩

/-- What the first attempt leaves behind. -/
def lostWorld : World :=
  let credited := (serve (sampleStart.setPayment sampleSignature (some (inserted (account 'a') solSpec sampleTime)))
    (.doCredit (account 'a') (creditOf (earnedSol false))) ⟨.lost, sampleTime, .failed⟩).2
  (serve credited (.deletePending sampleSignature) ⟨.none, sampleTime, .failed⟩).2

theorem solTopup_resolved : resolveSpec sampleState solTopup = .ok solSpec := by decide +kernel

theorem solTopup_named : rowKey sampleState solSpec solTopup.txHash = some sampleSignature := by decide +kernel

theorem first_lost : ∃ past answer, (machine sampleState sampleStart).Run
      (Pool.serving serve (launch sampleState) Resubmitting) ⟨sampleStart, []⟩ past ⟨lostWorld, [.pure (.error answer)]⟩ ∧
    asked (Pool.log past) = true ∧ added (account 'a') ("tx:" ++ sampleSignature) (Pool.log past) = some 1500000 := by
  obtain ⟨past₀, spawned, log₀⟩ := Pool.run_spawn (.start : (machine sampleState sampleStart).Run
    (Pool.serving serve (launch sampleState) Resubmitting) ⟨sampleStart, []⟩ [] ⟨sampleStart, []⟩)
    (.topup (some (account 'a')) solTopup)
  have found : ([] ++ [launch sampleState (.topup (some (account 'a')) solTopup)])[0]? = some _ := rfl
  have asked₀ : asked (Pool.log past₀) = false := congrArg asked log₀
  obtain ⟨past₁, early, verified, log₁, quiet⟩ := topup_alone spawned found solTopup_resolved solTopup_named rfl
    (quoting_verdict false rfl) fun early served all known chosen => resubmitting_verified asked₀ all known chosen
  have asked₁ : asked (Pool.log past₁) = false := by
    rw [log₁, asked_append, quiet_of_verified quiet, asked₀]
    rfl
  obtain ⟨past₂, deleted, answer, refused, quit, log₂⟩ := @finish_lost _ _ _ _ _ _ _ _ (earnedSol false)
    ⟨.lost, sampleTime, .failed⟩ ⟨.none, sampleTime, .failed⟩ verified (set_found found _) .other rfl
    (by rw [Resubmitting, asked₁]; rfl) (by
      intro served command choice
      rw [Resubmitting, command, choice]
      rfl)
  refine ⟨past₂, answer, refused, ?_, ?_⟩
  · rw [log₂]
    exact Bool.or_eq_true_iff.mpr (.inr rfl)
  · have gained : gain (account 'a') ("tx:" ++ sampleSignature) ⟨sampleStart.setPayment sampleSignature (some (inserted (account 'a') solSpec sampleTime)),
        .doCredit (account 'a') (creditOf (earnedSol false)), ⟨.lost, sampleTime, .failed⟩, .error .other⟩ =
      some 1500000 := by decide +kernel
    have none : gain (account 'a') ("tx:" ++ sampleSignature) deleted = none := gain_of_quiet (by rw [quit]; rfl)
    rw [log₂, added_of_none none, added_of_gain gained]

/-- The response of a credit at 150 dollars is lost; resubmitted at 200, the record
and the answer say 2,000,000 points and the balance has 1,500,000. -/
theorem record_disagrees :
    ∃ past pool, (machine sampleState sampleStart).Run (Pool.serving serve (launch sampleState) Resubmitting)
        ⟨sampleStart, []⟩ past pool ∧
      (pool.world.payments sampleSignature).map (fun row => (row.status, row.points)) = some (.credited, 2000000) ∧
      pool.threads[1]? = some (.pure (.ok (.response 200 (.topup 2000000 1500000)))) ∧
      added (account 'a') ("tx:" ++ sampleSignature) (Pool.log past) = some 1500000 := by
  obtain ⟨past, answer, refused, asking, lost⟩ := first_lost
  obtain ⟨past₀, spawned, log₀⟩ := Pool.run_spawn refused (.topup (some (account 'a')) solTopup)
  have found : ([.pure (.error answer)] ++ [launch sampleState (.topup (some (account 'a')) solTopup)])[1]? = some _ := rfl
  have asked₀ : asked (Pool.log past₀) = true := (congrArg asked log₀).trans asking
  obtain ⟨past₁, early, verified, log₁, quiet⟩ := topup_alone spawned found solTopup_resolved solTopup_named
    (by decide +kernel) (quoting_verdict true (by decide +kernel)) fun early served all known chosen =>
      resubmitting_verified asked₀ all known chosen
  have asked₁ : asked (Pool.log past₁) = true := by
    rw [log₁, asked_append, asked₀, Bool.or_true]
  obtain ⟨past₂, recorded, answered, paid, log₂⟩ := @finish_kept _ _ _ _ _ _ _ _ (earnedSol true)
    ⟨.none, sampleTime, .failed⟩ ⟨.none, sampleTime, .failed⟩ verified (set_found found _) ⟨1500000, false⟩
    (by decide +kernel) (by rw [Resubmitting, asked₁]; rfl) (by
      intro served command choice
      rw [Resubmitting, command, choice]
      rfl)
  refine ⟨past₂, _, answered, ?_, rfl, ?_⟩
  · dsimp only
    decide +kernel
  have repeated : gain (account 'a') ("tx:" ++ sampleSignature) ⟨lostWorld.setPayment sampleSignature (some (inserted (account 'a') solSpec sampleTime)),
        .doCredit (account 'a') (creditOf (earnedSol true)), ⟨.none, sampleTime, .failed⟩, .ok ⟨1500000, false⟩⟩ =
      none := by decide +kernel
  have none : gain (account 'a') ("tx:" ++ sampleSignature) recorded = none := gain_of_quiet (by rw [paid]; rfl)
  have verifying : early.findSome? (gain (account 'a') ("tx:" ++ sampleSignature)) = .none := by
    rw [List.findSome?_eq_none_iff]
    intro old member
    apply gain_of_quiet
    have quiet := quiet_of_verified quiet
    rw [asked, List.any_eq_false] at quiet
    exact Bool.eq_false_iff.mpr (quiet old member)
  rw [log₂, added_of_none none, added_of_none repeated, log₁, log₀, added, List.findSome?_append, verifying]
  exact lost

/-- The same loss with a stablecoin: the retry asks for as many points. -/
theorem record_agrees_resubmitted :
    let turns := [.spawn (submitted (account 'a'))] ++ serves 0 4 ++ [.advance 0 ⟨.lost, 0, deposited⟩] ++ serves 0 1 ++
      [.spawn (submitted (account 'a'))] ++ serves 1 6
    let run := (machine sampleState sampleStart).play ([], ⟨sampleStart, []⟩) turns
    (run.2.world.payments sampleSignature).map (fun row => (row.status, row.points)) = some (.credited, 10000) ∧
      ∀ found, run.2.world.payments sampleSignature = some found →
        added found.address ("tx:" ++ sampleSignature) (Pool.log run.1) = some found.points := by
  intro turns run
  have observed : (machine sampleState sampleStart).Permitted (Pool.serving serve (launch sampleState)
      fun log served => steady sampleSignature log served = true) ([], ⟨sampleStart, []⟩) turns ∧
        (run.2.world.payments sampleSignature).map (fun row => (row.status, row.points)) = some (.credited, 10000) := by
    decide +kernel
  obtain ⟨permitted, finalized⟩ := observed
  have ran : (machine sampleState sampleStart).Run (Pool.serving serve (launch sampleState)
      fun log served => steady sampleSignature log served = true) ⟨sampleStart, []⟩ run.1 run.2 :=
    Machine.Run.play .start turns permitted
  have agreed := record_agrees sampleState sampleStart sampleSignature rfl (sampleStart_unmarked · _) ran
  refine ⟨finalized, ?_⟩
  intro found row
  rw [row, Option.map_some, Option.some.injEq, Prod.mk.injEq] at finalized
  exact agreed.1 found row finalized.1

end Example

end LetsEmbed.Worker
