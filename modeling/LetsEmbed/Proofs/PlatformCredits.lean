import LetsEmbed.Proofs.PlatformBans

/-! Where points come from. Whatever is resubmitted and whichever responses are lost, a
credit is applied to an account at most once for each key, and each one goes back to an
approved form or to a payment. -/

namespace LetsEmbed.Platform
open Account Systems

variable {s : Storage} {i : Input} {key address : String}

/-- The event credited this key. -/
def applies (key : String) (e : Account.Event) : Bool :=
  match e.input.op, e.output with
  | .credit req, .balance resp => decide (req.key = key) && resp.applied
  | _, _ => false

theorem applies_credit {now : Nat} {req : CreditReq} :
    applies key (account.event s ⟨now, .credit req⟩) = (decide (req.key = key) && (s.credit req.key).isNone) := by
  change (match Op.credit req, (Account.credit s req).1 with
    | .credit req, .balance resp => decide (req.key = key) && resp.applied
    | _, _ => false) = _
  rw [Account.credit]
  dsimp only
  cases s.credit req.key <;> rfl

theorem applies_other (other : ∀ req, i.op ≠ .credit req) : applies key (account.event s i) = false := by
  obtain ⟨now, op⟩ := i
  cases op with
  | credit req => exact (other req rfl).elim
  | _ => rfl

/-- A step applies the key exactly where it sets the marker. -/
theorem step_applies : ((step s i).2.credit key).isSome =
    ((s.credit key).isSome || applies key (account.event s i)) ∧
      (applies key (account.event s i) = true → (s.credit key).isSome = false) := by
  by_cases credits : ∃ req, i.op = .credit req
  · obtain ⟨now, op⟩ := i
    obtain ⟨req, rfl⟩ := credits
    rw [applies_credit]
    change ((Account.credit s req).2.credit key).isSome = _ ∧ _
    have marker := credit_marker s req key
    by_cases same : req.key = key
    · subst same
      rw [marker.mpr (.inr rfl)]
      cases s.credit req.key <;> simp
    · have kept : ((Account.credit s req).2.credit key).isSome = (s.credit key).isSome :=
        Bool.eq_iff_iff.mpr (marker.trans (or_iff_left (Ne.symm same)))
      simp [kept, same]
  · have other : ∀ req, i.op ≠ .credit req := fun req same => credits ⟨req, same⟩
    rw [step_markers other, applies_other other]
    exact ⟨(Bool.or_false _).symm, Bool.noConfusion⟩

variable {start : Storage} {past : List Account.Event} {guard : Account.Guard}

theorem applied_count (run : account.Run guard start past s) (fresh : (start.credit key).isSome = false) :
    past.countP (applies key) = if (s.credit key).isSome then 1 else 0 := by
  apply run.invariant fun past s => past.countP (applies key) = if (s.credit key).isSome then 1 else 0
  · rw [fresh]
    rfl
  · intro past s i _ _ counted
    obtain ⟨marked, first⟩ := @step_applies s i key
    change List.countP (applies key) (account.event s i :: past) = if ((step s i).2.credit key).isSome then 1 else 0
    rw [List.countP_cons, counted, marked]
    cases applied : applies key (account.event s i) with
    | false => simp
    | true => simp [first applied]

/-- An account that was asked to credit a key has its marker. -/
theorem marked_of_asked (run : account.Run guard start past s) {e : Account.Event} (member : e ∈ past) {req : CreditReq}
    (asked : e.input.op = .credit req) : (s.credit req.key).isSome = true := by
  revert member
  apply run.invariant fun past s => e ∈ past → (s.credit req.key).isSome = true
  · exact fun absent => absurd absent List.not_mem_nil
  · intro past s i _ _ before member
    change ((step s i).2.credit req.key).isSome = true
    rcases List.mem_cons.mp member with rfl | old
    · obtain ⟨now, op⟩ := i
      obtain rfl : op = .credit req := asked
      exact (credit_marker s req req.key).mpr (.inr rfl)
    · rw [step_applies.1, before old]
      rfl

/-! ## Over the deployed system -/

section Deployed
variable {gs : Gateway.State} {st : Auth.SiweState} {start : World}
  {past : Pool.Past Command Command.Reply Outcome World Request Choice}
  {pool : Pool Command Command.Reply Outcome World}
  {guard : Systems.Guard (Pool Command Command.Reply Outcome World) (Turn Request Choice)
    (Option (Systems.Served Command Command.Reply World Choice))}
  {form : CreditForm} {uuid : String}

theorem reaches_credit {command : Command} {choice : Choice} {req : CreditReq}
    (reached : reaches address command choice = some (.credit req)) : command = .user (.doCredit address req) := by
  rw [reaches, Option.ite_none_left_eq_some] at reached
  obtain ⟨⟨target, op⟩, known, same⟩ := Option.bind_eq_some_iff.mp reached.2
  rw [Option.ite_none_right_eq_some, Option.some.injEq] at same
  obtain ⟨rfl, rfl⟩ := same
  cases command with
  | user command =>
    cases command with
    | doCredit other value =>
      cases known
      rfl
    | _ => cases known
  | doPlan other change => cases change <;> cases known
  | gateway command => cases command <;> cases known
  | _ => cases known

theorem applies_op {e : Account.Event} (applied : applies key e = true) : ∃ req, e.input.op = .credit req ∧ req.key = key := by
  rw [applies] at applied
  split at applied
  next req resp op output =>
    rw [Bool.and_eq_true] at applied
    exact ⟨req, op, of_decide_eq_true applied.1⟩
  · cases applied

/-- A submission that was answered with the redirect has had its credit asked for. -/
theorem asked_of_redirected {approver : Option String}
    (run : (machine gs st start).Run guard ⟨start, []⟩ past pool) {i : Nat}
    (known : (Pool.requests past)[i]? = some (.credit approver form uuid)) {answer : Answer}
    (through : pool.threads[i]? = some (.pure (.ok answer))) :
    ∃ e ∈ history form.address (Pool.log past), e.input.op = .credit ⟨form.points, creditKey form uuid, form.reason⟩ := by
  obtain ⟨resp, member⟩ : ∃ resp, (⟨.user (.doCredit form.address ⟨form.points, creditKey form uuid, form.reason⟩), .ok resp⟩ :
      Exchange Command Command.Reply) ∈ Pool.own i past := Pool.answered_of_run run (launch_rule gs st) known through
  obtain ⟨late, event, early, served, split, turn, exchange⟩ := Pool.event_of_own member
  rw [split] at run
  obtain ⟨_, answered, _⟩ := Pool.served_world run turn
  obtain ⟨w, command, choice, reply⟩ := served
  cases exchange
  have reached : choice.fault ≠ .refused := by
    intro refused
    change .ok resp = (choice.fault.apply _ _).1 at answered
    rw [refused] at answered
    cases answered
  refine ⟨_, mem_history.mpr ⟨_, ?_, @happened_eq form.address
    ⟨w, .user (.doCredit form.address ⟨form.points, creditKey form uuid, form.reason⟩), choice, .ok resp⟩ _ rfl reached⟩, rfl⟩
  rw [split, Pool.log_append, Pool.log_of_servedBy turn]
  exact List.mem_append_right _ List.mem_cons_self

/-- However often forms and payments are submitted again, and whichever responses are
lost: every credit that was ever applied to an account goes back to an approved form or to
evidence its thread had of a payment to it, no key was applied twice, and the key of a
form that was answered with the redirect was applied once. -/
theorem points_are_funded (fresh : ∀ address, start.services.accounts address = {})
    (run : (machine gs st start).Run guard ⟨start, []⟩ past pool) (address : String) :
    (∀ e ∈ history address (Pool.log past), ∀ key, applies key e = true →
      ∃ i request late early req, (Pool.requests past)[i]? = some request ∧ Pool.own i past = late ++ early ∧
        e.input.op = .credit req ∧ req.key = key ∧ Funded st request early address req) ∧
    (∀ key, (history address (Pool.log past)).countP (applies key) ≤ 1) ∧
    ∀ (i : Nat) approver form uuid answer, (Pool.requests past)[i]? = some (.credit approver form uuid) → form.address = address →
      pool.threads[i]? = some (.pure (.ok answer)) → (history address (Pool.log past)).countP (applies (creditKey form uuid)) = 1 := by
  have running := account_run run address
  have unmarked (key : String) : ((start.services.accounts address).credit key).isSome = false := by
    rw [fresh]
    rfl
  refine ⟨?_, ?_, ?_⟩
  · intro e member key applied
    obtain ⟨req, op, named⟩ := applies_op applied
    obtain ⟨served, inside, same⟩ := mem_history.mp member
    obtain ⟨i, late, event, early, split, turn⟩ := Pool.event_of_log run inside
    rw [split] at run
    obtain ⟨request, known, asked⟩ := Pool.asked_of_run run (launch_rule gs st) turn
    obtain ⟨reached, reaching, rfl⟩ := Option.map_eq_some_iff.mp same
    obtain rfl : reached = .credit req := op
    rw [reaches_credit reaching] at asked
    refine ⟨i, request, Pool.own i (late ++ [event]), Pool.own i early, req, ?_, ?_, rfl, named, asked⟩
    · rw [split, List.append_cons]
      exact Pool.requests_mono known
    · rw [split, List.append_cons]
      exact Pool.own_append
  · intro key
    rw [applied_count running (unmarked key)]
    split
    · exact Nat.le_refl 1
    · exact Nat.zero_le 1
  · rintro i approver form uuid answer known rfl through
    obtain ⟨e, member, asked⟩ := asked_of_redirected run known through
    rw [applied_count running (unmarked _), if_pos (marked_of_asked running member asked)]

end Deployed

section Example
open Gateway (sampleState)
open Worker (sampleSiwe contested)

def bonus : CreditForm := ⟨contested, 500, "bonus", "6d6a4c1a"⟩

/-- The response to the first submission is lost, and the form is sent again. -/
theorem points_are_funded_resubmitted :
    let turns := [.spawn (.credit (some "admin") bonus "")] ++ advances 0 1 ++
      [.advance 0 ⟨.lost, 1000, .failed, .answered ⟨200, []⟩, true⟩, .spawn (.credit (some "admin") bonus "")] ++ advances 1 2
    let run := (machine sampleState sampleSiwe enrolled).play ([], ⟨enrolled, []⟩) turns
    (history contested (Pool.log run.1)).length = 2 ∧
      (history contested (Pool.log run.1)).countP (applies "admin:6d6a4c1a") = 1 := by
  intro turns run
  have ran : (machine sampleState sampleSiwe enrolled).Run (fun _ _ _ => True) ⟨enrolled, []⟩ run.1 run.2 :=
    Machine.Run.play .start turns (Machine.permitted_always (fun _ _ _ => trivial) _ _)
  have observed : run.2.threads.map redirects = [none, some ("/user/admin?address=" ++ contested)] ∧
      (history contested (Pool.log run.1)).length = 2 ∧ creditKey bonus "" = "admin:6d6a4c1a" := by
    decide +kernel
  obtain ⟨answers, both, key⟩ := observed
  refine ⟨both, ?_⟩
  rw [← key]
  have through : run.2.threads[1]? = some (.pure (.ok (.redirect ("/user/admin?address=" ++ contested)))) :=
    redirected (by rw [answers]; rfl)
  exact (points_are_funded (fun _ => rfl) ran contested).2.2 1 (some "admin") bonus "" _ rfl rfl through

end Example

end LetsEmbed.Platform
