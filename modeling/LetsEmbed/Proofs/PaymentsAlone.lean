import LetsEmbed.Proofs.PaymentsFootprint
import LetsEmbed.Proofs.PaymentsVerdict
import LetsEmbed.Worker

/-! A top-up that has all turns to itself, step by step: up to its credit while
nothing fails, and past the credit whether or not the response arrives. -/

namespace LetsEmbed.Worker
open Account Auth Payments SolanaLink Systems

theorem earn_run {st : AppState} {node : Node} {now : Nat} {addr hash text : String} {spec : Config.TokenSpec} {w : World}
    {amount : Nat} {points : Int} (named : rowKey st spec text = some hash) (free : w.payments hash = none)
    (comes : verdict st node now addr spec hash w = .earned amount points) :
    (earn st addr spec text).run.run (Payments.serving node now) w =
      (.ok ⟨hash, amount, points⟩, w.setPayment hash (some (inserted addr spec now))) := by
  have settled := Handler.wp_steady.mp (earn_wp node now addr named free)
  rw [comes] at settled
  split at settled
  next earned ended =>
    obtain ⟨same, rfl, late⟩ := settled
    obtain ⟨rfl, rfl⟩ := Verdict.earned.inj same
    exact Prod.ext ended late
  next => exact (settled.1 amount points rfl).elim

theorem topup_run {st : AppState} {addr : String} {req : TopupReq} {spec : Config.TokenSpec}
    (resolved : resolveSpec st req = .ok spec) : (topup st (some addr) req).run =
      (earn st addr spec req.txHash).run >>= ExceptT.bindCont (finalizeCredit addr) := by
  rw [topup, resolved]
  rfl

theorem earn_verifies (st : AppState) (addr text : String) (spec : Config.TokenSpec) : (earn st addr spec text).run.wp
    (Program.recording fun _ command => verifies command = true) (fun _ _ => True) [] := by
  apply Program.wp_mono (Handler.run_of_wp (earn_free fun _ _ known => known))
  intro past result _
  trivial

def undisturbed (node : Node) (now : Nat) : Command → Choice
  | .fetch url body => ⟨.none, now, node url body⟩
  | _ => ⟨.none, now, .failed⟩

theorem serving_undisturbed (node : Node) (now : Nat) :
    (fun w command => serve w command (undisturbed node now command)) = Payments.serving node now := by
  funext w command
  cases command <;> rfl

/-- A top-up that has all turns while nothing fails comes to its credit. -/
theorem topup_alone {st : AppState} {start : World} {fits : List Served → Served → Prop}
    {past : Pool.Past Command Command.Reply (Except Answer Answer) World Request Choice} {w : World}
    {threads : List (Program Command Command.Reply (Except Answer Answer))} {i : Nat} {addr hash : String}
    {req : TopupReq} {spec : Config.TokenSpec} {node : Node} {now amount : Nat} {points : Int}
    (run : (machine st start).Run (Pool.serving serve (launch st) fits) ⟨start, []⟩ past ⟨w, threads⟩)
    (found : threads[i]? = some (launch st (.topup (some addr) req))) (resolved : resolveSpec st req = .ok spec)
    (named : rowKey st spec req.txHash = some hash) (free : w.payments hash = none)
    (comes : verdict st node now addr spec hash w = .earned amount points)
    (fit : ∀ early served, (∀ old ∈ early, verifies old.command = true) → verifies served.command = true →
      served.choice = undisturbed node now served.command → fits (early ++ Pool.log past) served) :
    ∃ late early, (machine st start).Run (Pool.serving serve (launch st) fits) ⟨start, []⟩ late
        ⟨w.setPayment hash (some (inserted addr spec now)), threads.set i (finalizeCredit addr ⟨hash, amount, points⟩).run⟩ ∧
      Pool.log late = early ++ Pool.log past ∧ ∀ old ∈ early, verifies old.command = true := by
  have program := found.trans (congrArg some (topup_run resolved))
  obtain ⟨late, early, ended, rest⟩ := Pool.run_alone (fun _ => undisturbed node now)
    (earn_verifies st addr req.txHash spec) run fit program
  refine ⟨late, early, ?_, rest⟩
  rw [serving_undisturbed, earn_run named free comes] at ended
  exact ended

section Finish
variable {st : AppState} {start : World} {fits : List Served → Served → Prop}
  {past : Pool.Past Command Command.Reply (Except Answer Answer) World Request Choice} {w : World}
  {threads : List (Program Command Command.Reply (Except Answer Answer))} {i : Nat} {addr : String} {earned : Earned}

def creditOf (earned : Earned) : CreditReq := ⟨earned.points, "tx:" ++ earned.hash, "topup"⟩

theorem set_found {program : Program Command Command.Reply (Except Answer Answer)} (found : threads[i]? = some program)
    (other : Program Command Command.Reply (Except Answer Answer)) : (threads.set i other)[i]? = some other :=
  List.getElem?_set_self (List.getElem?_eq_some_iff.mp found).1

/-- Two turns of one thread in a row. -/
theorem served_twice (first second : Choice) {command command' : Command} {reply : Command.Reply command}
    {next : Command.Reply command → _} {next' : Command.Reply command' → _}
    (run : (machine st start).Run (Pool.serving serve (launch st) fits) ⟨start, []⟩ past ⟨w, threads⟩)
    (found : threads[i]? = some (.call command next)) (replied : (serve w command first).1 = reply)
    (continues : next reply = .call command' next') (fit : fits (Pool.log past) ⟨w, command, first, reply⟩)
    (fitLater : ∀ served, served.command = command' → served.choice = second →
      fits (⟨w, command, first, reply⟩ :: Pool.log past) served) :
    ∃ late served, (machine st start).Run (Pool.serving serve (launch st) fits) ⟨start, []⟩ late
        ⟨(serve (serve w command first).2 command' second).2,
          threads.set i (next' (serve (serve w command first).2 command' second).1)⟩ ∧
      served.command = command' ∧ Pool.log late = served :: ⟨w, command, first, reply⟩ :: Pool.log past := by
  obtain ⟨soon, answered, logged⟩ := Pool.run_served run found first (by rw [replied]; exact fit)
  rw [replied, continues] at answered
  rw [replied] at logged
  obtain ⟨late, ended, grown⟩ := Pool.run_served answered (set_found found _) second (by
    rw [logged]
    exact fitLater _ rfl rfl)
  rw [List.set_set] at ended
  rw [logged] at grown
  exact ⟨late, _, ended, rfl, grown⟩

theorem finish_lost {first second : Choice}
    (run : (machine st start).Run (Pool.serving serve (launch st) fits) ⟨start, []⟩ past ⟨w, threads⟩)
    (found : threads[i]? = some (finalizeCredit addr earned).run) {failure : Failure}
    (lost : (serve w (.doCredit addr (creditOf earned)) first).1 = .error failure)
    (fit : fits (Pool.log past) ⟨w, .doCredit addr (creditOf earned), first, .error failure⟩)
    (fitLater : ∀ served, served.command = .deletePending earned.hash → served.choice = second →
      fits (⟨w, .doCredit addr (creditOf earned), first, .error failure⟩ :: Pool.log past) served) :
    ∃ late served answer, (machine st start).Run (Pool.serving serve (launch st) fits) ⟨start, []⟩ late
        ⟨(serve (serve w (.doCredit addr (creditOf earned)) first).2 (.deletePending earned.hash) second).2,
          threads.set i (.pure (.error answer))⟩ ∧
      served.command = .deletePending earned.hash ∧
      Pool.log late = served :: ⟨w, .doCredit addr (creditOf earned), first, .error failure⟩ :: Pool.log past := by
  have thread : threads[i]? = some (.call (.doCredit addr (creditOf earned)) _) := found
  obtain ⟨late, served, ended, deleted, grown⟩ := served_twice first second run thread lost rfl fit fitLater
  exact ⟨late, served, _, ended, deleted, grown⟩

theorem finish_kept {first second : Choice}
    (run : (machine st start).Run (Pool.serving serve (launch st) fits) ⟨start, []⟩ past ⟨w, threads⟩)
    (found : threads[i]? = some (finalizeCredit addr earned).run) {resp : BalanceResp}
    (kept : (serve w (.doCredit addr (creditOf earned)) first).1 = .ok resp)
    (fit : fits (Pool.log past) ⟨w, .doCredit addr (creditOf earned), first, .ok resp⟩)
    (fitLater : ∀ served, served.command = .creditPayment earned.hash earned.amount earned.points →
      served.choice = second → fits (⟨w, .doCredit addr (creditOf earned), first, .ok resp⟩ :: Pool.log past) served) :
    ∃ late served, (machine st start).Run (Pool.serving serve (launch st) fits) ⟨start, []⟩ late
        ⟨(serve (serve w (.doCredit addr (creditOf earned)) first).2
            (.creditPayment earned.hash earned.amount earned.points) second).2,
          threads.set i (.pure (.ok (.response 200 (.topup earned.points resp.balance))))⟩ ∧
      served.command = .creditPayment earned.hash earned.amount earned.points ∧
      Pool.log late = served :: ⟨w, .doCredit addr (creditOf earned), first, .ok resp⟩ :: Pool.log past := by
  have thread : threads[i]? = some (.call (.doCredit addr (creditOf earned)) _) := found
  exact served_twice first second run thread kept rfl fit fitLater

end Finish

end LetsEmbed.Worker
