import LetsEmbed.Proofs.SolanaLinkApart

/-! A nonce lets one request past the gate while no two requests stand in it
with the same nonce. The gate reads the store and then deletes from it, so what
one request has read another may read too until the first has deleted it. -/

namespace LetsEmbed.Worker
open Auth Payments SolanaLink Systems

abbrev Arrived := Pool.Past Command Command.Reply (Except Answer Answer) World Arrival Choice

abbrev Exchanges := List (Exchange Command Command.Reply)

/-- The last access to a nonce found it, and nobody has deleted it since. -/
def entered (key : String) : List Served → Bool
  | [] => false
  | ⟨_, .getNonce other, _, .ok true⟩ :: log => other = key || entered key log
  | ⟨_, .deleteNonce other, _, _⟩ :: log => other ≠ key && entered key log
  | _ :: log => entered key log

/-- Nobody finds a nonce that another request has found and not yet deleted. -/
def uncontended (log : List Served) : Served → Bool
  | ⟨_, .getNonce key, _, .ok true⟩ => !entered key log
  | _ => true

def Between (key : String) (past : Exchanges) : Prop := past.head? = some ⟨.getNonce key, .ok true⟩

def PastGate (key : String) (past : Exchanges) : Prop := ⟨.deleteNonce key, .ok ()⟩ ∈ past

/-- A nonce is deleted by a request that has just found it. -/
def Deletes (past : Exchanges) : Command → Prop
  | .deleteNonce key => Between key past
  | _ => True

theorem launch_deletes {st : SiweState} (arrival : Arrival) :
    (arrival.launch st).wp (Program.recording Deletes) (fun _ _ => True) [] := by
  have gated : Gated Deletes := fun past key => ⟨trivial, rfl⟩
  have handled {handler : Handler Answer}
      (holds : handler.wp (Program.recording Deletes) (fun _ _ => True) (fun _ _ => True) []) :
      handler.run.wp (Program.recording Deletes) (fun _ _ => True) [] :=
    Program.wp_mono (Handler.run_of_wp holds) fun _ _ _ => trivial
  cases arrival with
  | verify req =>
    exact handled (verify_rule gated (fun _ _ => ⟨trivial, trivial, trivial⟩) (fun _ _ _ => trivial) fun _ _ _ => trivial)
  | other request =>
    apply handled
    cases request with
    | topup session req =>
      apply topup_free
      intro past command spent
      cases command with
      | deleteNonce key => cases spent
      | _ => trivial
    | link session req => exact link_rule gated (fun _ => ⟨trivial, trivial⟩) (fun _ _ _ _ => trivial) fun _ => trivial
    | unlink session => exact unlink_rule (fun _ _ => trivial) fun _ => trivial
    | verifySolana req =>
      exact verifySolana_rule gated (fun _ => ⟨trivial, trivial, trivial⟩) (fun _ => trivial) (fun _ _ => trivial)
        fun _ _ => trivial

structure Single (key : String) (own : Nat → Exchanges) (log : List Served) (w : World) : Prop where
  alone : ∀ i j, Between key (own i) → Between key (own j) → i = j
  inside : ∀ i, Between key (own i) → entered key log = true
  spent : ∀ i, PastGate key (own i) →
    w.nonces key = false ∧ (∀ j, ¬ Between key (own j)) ∧ ∀ j, PastGate key (own j) → j = i

section Step
variable {key : String} {own : Nat → Exchanges} {log : List Served} {w : World} {i : Nat} {choice : Choice}

theorem serve_deleteNonce (answered : (serve w (.deleteNonce key) choice).1 = .ok ()) :
    (serve w (.deleteNonce key) choice).2.nonces key = false := by
  have reached : choice.fault ≠ .refused := by
    intro refused
    rw [serve, refused] at answered
    cases answered
  exact (congrArg (World.nonces · key) (Fault.apply_of_reached reached)).trans (Function.update_self ..)

theorem entered_other {command : Command} {reply : command.Reply} (get : command ≠ .getNonce key)
    (delete : command ≠ .deleteNonce key) : entered key (⟨w, command, choice, reply⟩ :: log) = entered key log := by
  cases command with
  | getNonce other =>
    have different : other ≠ key := fun same => get (congrArg Command.getNonce same)
    cases reply with
    | error failure => rfl
    | ok found => cases found <;> simp [entered, different]
  | deleteNonce other =>
    have different : other ≠ key := fun same => delete (congrArg Command.deleteNonce same)
    simp [entered, different]
  | _ => rfl

theorem entered_missed {reply : Except Failure Bool} (missed : reply ≠ .ok true) :
    entered key (⟨w, .getNonce key, choice, reply⟩ :: log) = entered key log := by
  cases reply with
  | error failure => rfl
  | ok found =>
    cases found with
    | false => rfl
    | true => exact (missed rfl).elim

theorem extend_between {exchange : Exchange Command Command.Reply} {j : Nat}
    (between : Between key (Pool.extend own i exchange j)) :
    i = j ∧ exchange = ⟨.getNonce key, .ok true⟩ ∨ i ≠ j ∧ Between key (own j) := by
  rcases Pool.extend_cases own i j exchange with ⟨same, whole⟩ | ⟨different, whole⟩
  · rw [whole] at between
    exact .inl ⟨same, Option.some.inj between⟩
  · rw [whole] at between
    exact .inr ⟨different, between⟩

theorem extend_pastGate {exchange : Exchange Command Command.Reply} {j : Nat}
    (gone : PastGate key (Pool.extend own i exchange j)) :
    i = j ∧ exchange = ⟨.deleteNonce key, .ok ()⟩ ∨ PastGate key (own j) :=
  (Pool.mem_extend gone).imp (fun now => ⟨now.1, now.2.symm⟩) id

theorem Single.get (single : Single key own log w)
    (lonely : uncontended log ⟨w, .getNonce key, choice, (serve w (.getNonce key) choice).1⟩ = true) :
    Single key (Pool.extend own i ⟨.getNonce key, (serve w (.getNonce key) choice).1⟩)
      (⟨w, .getNonce key, choice, (serve w (.getNonce key) choice).1⟩ :: log) (serve w (.getNonce key) choice).2 := by
  have world : (serve w (.getNonce key) choice).2 = w := choice.fault.apply_world.elim id (·.2)
  have gone {reply : Except Failure Bool} {j : Nat} (late : PastGate key (Pool.extend own i ⟨.getNonce key, reply⟩ j)) :
      PastGate key (own j) := by
    rcases extend_pastGate late with ⟨_, same⟩ | gone
    · cases (Sigma.mk.inj same).1
    · exact gone
  rw [world]
  by_cases found : (serve w (.getNonce key) choice).1 = .ok true
  · rw [found] at lonely ⊢
    have unentered : entered key log = false := by simpa [uncontended] using lonely
    -- everyone in the gate would have left it entered
    have only {j : Nat} (between : Between key (Pool.extend own i ⟨.getNonce key, .ok true⟩ j)) : i = j := by
      rcases extend_between between with ⟨same, _⟩ | ⟨_, still⟩
      · exact same
      · cases (single.inside j still).symm.trans unentered
    refine ⟨fun j k one two => (only one).symm.trans (only two), fun j _ => by simp [entered], fun j late => ?_⟩
    cases (single.spent j (gone late)).1.symm.trans (Fault.apply_read found).1
  · have between {j : Nat}
        (still : Between key (Pool.extend own i ⟨.getNonce key, (serve w (.getNonce key) choice).1⟩ j)) :
        Between key (own j) := by
      rcases extend_between still with ⟨_, same⟩ | ⟨_, still⟩
      · exact (found (eq_of_heq (Sigma.mk.inj same).2)).elim
      · exact still
    refine ⟨fun j k one two => single.alone j k (between one) (between two), fun j still => ?_, fun j late => ?_⟩
    · rw [entered_missed found]
      exact single.inside j (between still)
    · obtain ⟨used, nobody, only⟩ := single.spent j (gone late)
      exact ⟨used, fun k still => nobody k (between still), fun k also => only k (gone also)⟩

theorem Single.delete (single : Single key own log w) (between : Between key (own i)) :
    Single key (Pool.extend own i ⟨.deleteNonce key, (serve w (.deleteNonce key) choice).1⟩)
      (⟨w, .deleteNonce key, choice, (serve w (.deleteNonce key) choice).1⟩ :: log)
      (serve w (.deleteNonce key) choice).2 := by
  have nobody (j : Nat) : ¬ Between key (Pool.extend own i ⟨.deleteNonce key, (serve w (.deleteNonce key) choice).1⟩ j) := by
    intro still
    rcases extend_between still with ⟨_, same⟩ | ⟨different, still⟩
    · cases (Sigma.mk.inj same).1
    · exact different (single.alone i j between still)
  have unspent (j : Nat) : ¬ PastGate key (own j) := fun gone => (single.spent j gone).2.1 i between
  refine ⟨fun j k still _ => (nobody j still).elim, fun j still => (nobody j still).elim, fun j gone => ?_⟩
  rcases extend_pastGate gone with ⟨mine, deleted⟩ | gone
  · refine ⟨?_, nobody, fun k also => ?_⟩
    · exact serve_deleteNonce (eq_of_heq (Sigma.mk.inj deleted).2)
    · rcases extend_pastGate also with ⟨same, _⟩ | also
      · exact same.symm.trans mine
      · exact (unspent k also).elim
  · exact (unspent j gone).elim

theorem Single.other {command : Command} (single : Single key own log w) (get : command ≠ .getNonce key)
    (delete : command ≠ .deleteNonce key) : Single key (Pool.extend own i ⟨command, (serve w command choice).1⟩)
      (⟨w, command, choice, (serve w command choice).1⟩ :: log) (serve w command choice).2 := by
  have between {j : Nat} (still : Between key (Pool.extend own i ⟨command, (serve w command choice).1⟩ j)) :
      Between key (own j) := by
    rcases extend_between still with ⟨_, same⟩ | ⟨_, still⟩
    · exact (get (Sigma.mk.inj same).1).elim
    · exact still
  have gone {j : Nat} (late : PastGate key (Pool.extend own i ⟨command, (serve w command choice).1⟩ j)) :
      PastGate key (own j) := by
    rcases extend_pastGate late with ⟨_, same⟩ | gone
    · exact (delete (Sigma.mk.inj same).1).elim
    · exact gone
  refine ⟨fun j k one two => single.alone j k (between one) (between two), fun j still => ?_, fun j late => ?_⟩
  · rw [entered_other get delete]
    exact single.inside j (between still)
  · obtain ⟨used, nobody, only⟩ := single.spent j (gone late)
    exact ⟨(serve_nonces delete).trans used, fun k still => nobody k (between still), fun k also => only k (gone also)⟩

theorem Single.step {command : Command} (single : Single key own log w) (asked : Deletes (own i) command)
    (lonely : uncontended log ⟨w, command, choice, (serve w command choice).1⟩ = true) :
    Single key (Pool.extend own i ⟨command, (serve w command choice).1⟩)
      (⟨w, command, choice, (serve w command choice).1⟩ :: log) (serve w command choice).2 := by
  by_cases get : command = .getNonce key
  · subst get
    exact single.get lonely
  · by_cases delete : command = .deleteNonce key
    · subst delete
      exact single.delete asked
    · exact single.other get delete

end Step

/-- If no request finds a nonce that another one has found and not yet deleted,
one request at most gets past the gate with it. -/
theorem nonce_single_use (st : SiweState) (start : World) {past : Arrived}
    {pool : Pool Command Command.Reply (Except Answer Answer) World}
    (run : (arrivals st start).Run
      (Pool.serving serve (Arrival.launch st) fun log served => uncontended log served = true) ⟨start, []⟩ past pool)
    (key : String) {i j : Nat} (one : PastGate key (Pool.own i past)) (two : PastGate key (Pool.own j past)) :
    i = j := by
  have single : Single key (fun i => Pool.own i past) (Pool.log past) pool.world := by
    apply Pool.own_invariant run launch_deletes
    · refine ⟨fun i j between => ?_, fun i between => ?_, fun i gone => ?_⟩
      · cases between
      · cases between
      · cases gone
    · exact fun choice single asked lonely => single.step asked lonely
  exact ((single.spent i one).2.2 j two).symm

section Example

/-- No Ethereum message is signed below. -/
def sampleSiwe : SiweState := { sampleState with chainId := 1, recoverAddress := fun _ _ => .error .badSignature }

def sharedNonce : String := "nonce:0f3c9be2d47a4d11b6c8a0e91d25f734"

def issued : World := ⟨fun _ => none, [], fun key => key = sharedNonce, fun _ => {}⟩

def leaves (key : String) : Exchange Command Command.Reply → Bool
  | ⟨.deleteNonce other, .ok ()⟩ => other = key
  | _ => false

theorem pastGate_of_leaves {key : String} {past : Exchanges} (found : past.any (leaves key) = true) :
    PastGate key past := by
  obtain ⟨⟨command, reply⟩, member, same⟩ := List.any_eq_true.mp found
  cases command with
  | deleteNonce other =>
    cases reply with
    | ok =>
      obtain rfl : other = key := by simpa [leaves] using same
      exact member
    | error failure => cases same
  | _ => cases same

def answered : Program Command Command.Reply (Except Answer Answer) → Option Answer
  | .pure (.ok answer) | .pure (.error answer) => some answer
  | _ => none

theorem nonce_single_use_sequential :
    let turns := [.spawn (.other signingIn), .spawn (.other signingIn)] ++ runs 0 7 ++ runs 1 1
    let run := (arrivals sampleSiwe issued).play ([], ⟨issued, []⟩) turns
    PastGate sharedNonce (Pool.own 0 run.1) ∧ ¬ PastGate sharedNonce (Pool.own 1 run.1) := by
  intro turns run
  have observed : (arrivals sampleSiwe issued).Permitted (Pool.serving serve (Arrival.launch sampleSiwe)
      fun log served => uncontended log served = true) ([], ⟨issued, []⟩) turns ∧
        (Pool.own 0 run.1).any (leaves sharedNonce) = true := by
    decide +kernel
  obtain ⟨permitted, left⟩ := observed
  have first : PastGate sharedNonce (Pool.own 0 run.1) := pastGate_of_leaves left
  refine ⟨first, fun second => ?_⟩
  cases nonce_single_use sampleSiwe issued (Machine.Run.play .start turns permitted) sharedNonce first second

/-- Two copies of one sign-in both read the nonce before either deletes it, and
both are let in. -/
theorem nonce_used_twice :
    let turns := [.spawn (.other signingIn), .spawn (.other signingIn)] ++ runs 0 1 ++ runs 1 1 ++ runs 0 6 ++ runs 1 6
    let run := (arrivals sampleSiwe issued).play ([], ⟨issued, []⟩) turns
    (arrivals sampleSiwe issued).Run (fun _ _ _ => True) ⟨issued, []⟩ run.1 run.2 ∧
      PastGate sharedNonce (Pool.own 0 run.1) ∧ PastGate sharedNonce (Pool.own 1 run.1) ∧
      run.2.threads.map answered = List.replicate 2 (some (.response 200 (.session contested 0 604_800))) := by
  intro turns run
  have observed : (Pool.own 0 run.1).any (leaves sharedNonce) = true ∧ (Pool.own 1 run.1).any (leaves sharedNonce) = true ∧
      run.2.threads.map answered = List.replicate 2 (some (.response 200 (.session contested 0 604_800))) := by
    decide +kernel
  obtain ⟨first, second, answers⟩ := observed
  exact ⟨Machine.Run.play .start turns (Machine.permitted_always (fun _ _ _ => trivial) _ turns), pastGate_of_leaves first,
    pastGate_of_leaves second, answers⟩

end Example

end LetsEmbed.Worker
