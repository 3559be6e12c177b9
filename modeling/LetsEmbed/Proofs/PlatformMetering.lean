import LetsEmbed.Proofs.AuthNonce
import LetsEmbed.Proofs.PlatformAccounts
import LetsEmbed.Proofs.PlatformRules

/-! Metering end to end: what the gateway forwards on a session has been charged to the
account object of that session, by this request or less than a day before. -/

namespace LetsEmbed.Platform
open Account Systems

section Charges
variable {s : Storage} {now : Nat} {req : ChargeReq}

/-- The lookup only finds times of the last day, whatever the clock did. -/
theorem seenRecently_time {path : String} (recent : seenRecently s now path = true) :
    ∃ period time, Recency.Buckets.time s.seen period path = some time ∧ now < time + Config.dedupeWindowSecs := by
  have lookup {period : Nat} (found : (((s.seen period).getD fun _ => none) path).any
      (fun firstSeen => decide (firstSeen > now - Config.dedupeWindowSecs)) = true) :
      ∃ period time, Recency.Buckets.time s.seen period path = some time ∧ now < time + Config.dedupeWindowSecs := by
    obtain ⟨time, there, near⟩ := Option.any_eq_true _ _ |>.mp found
    refine ⟨period, time, ?_, by have := of_decide_eq_true near; omega⟩
    rw [Recency.Buckets.time]
    cases map : s.seen period with
    | none =>
      rw [map] at there
      cases there
    | some map' =>
      rw [map] at there
      exact there
  rw [seenRecently, isRecentView, List.any_cons, List.any_cons, List.any_nil, Bool.or_false, Bool.or_eq_true] at recent
  rcases recent with today | yesterday
  · exact lookup today
  · exact lookup yesterday

theorem charge_accepted (accepted : status (charge s now req).1 = some 200) : s.isBanned = false ∧
    (seenRecently s now req.path = true ∨ (charge s now req).1.charged = true) := by
  have same : seenRecently (ensureInit s) now req.path = seenRecently s now req.path := by
    simp only [seenRecently, ensureInit_seen]
  have outcome := charge_outcome s now req
  generalize charge s now req = result at outcome accepted ⊢
  cases outcome with
  | banned suspended => cases accepted
  | refused served fresh source => cases accepted
  | deduped served recent => exact ⟨(ensureInit_isBanned s).symm.trans served, .inl (same.symm.trans recent)⟩
  | recorded served fresh draws => exact ⟨(ensureInit_isBanned s).symm.trans served, .inr rfl⟩

end Charges

theorem call_answered {α : Type} {fault : Fault} {w : World} {address : String} {result : Account.Reply × Storage}
    {answer : Account.Reply → Option α} {value : α} (answered : (call fault w address result answer).1 = some value) :
    fault = .none ∧ answer result.1 = some value := by
  cases fault with
  | none => exact ⟨rfl, answered⟩
  | refused | lost => cases answered

variable {gs : Gateway.State} {st : Auth.SiweState} {start : World}
  {past early late : Pool.Past Command Command.Reply Outcome World Request Choice}
  {pool : Pool Command Command.Reply Outcome World}
  {guard : Systems.Guard (Pool Command Command.Reply Outcome World) (Turn Request Choice)
    (Option (Systems.Served Command Command.Reply World Choice))}
  {event : Systems.Event (Pool Command Command.Reply Outcome World) (Turn Request Choice)
    (Option (Systems.Served Command Command.Reply World Choice))}
  {i : Nat} {served : Systems.Served Command Command.Reply World Choice}

/-- A charge answered with 200 was recorded by the object, just now or less than a day
before. -/
theorem charged_recently {log : List Served} {w : World} {choice : Choice} {sub : String} {req : ChargeReq}
    (running : account.Run (fun _ _ _ => True) {} (history sub log) (w.services.accounts sub))
    (paid : (serve w (.gateway (.charge sub req)) choice).1 = some 200) :
    (w.services.accounts sub).isBanned = false ∧
      ∃ e ∈ history sub (⟨w, .gateway (.charge sub req), choice, some 200⟩ :: log), ChargedFor req.path e ∧
        choice.now < e.input.now + Config.dedupeWindowSecs := by
  obtain ⟨reached, accepted⟩ := call_answered paid
  obtain ⟨unbanned, recent | charged⟩ := charge_accepted accepted
  · refine ⟨unbanned, ?_⟩
    obtain ⟨period, time, found, near⟩ := seenRecently_time recent
    obtain ⟨e, member, charged, rfl⟩ := run_seenSound running period req.path time found
    obtain ⟨old, inside, same⟩ := mem_history.mp member
    exact ⟨e, mem_history.mpr ⟨old, List.mem_cons_of_mem _ inside, same⟩, charged, near⟩
  · refine ⟨unbanned, account.event (w.services.accounts sub) ⟨choice.now, .charge req⟩, ?_, ⟨⟨req.kind, rfl⟩, charged⟩, ?_⟩
    · exact mem_history.mpr ⟨_, List.mem_cons_self, happened_eq rfl (by rw [reached]; decide)⟩
    · exact Nat.lt_add_of_pos_right (by decide)

section Example
open Gateway (sampleState sampleGet sampleClaims)
open Worker (sampleSiwe)

/-- Nobody has an account yet. -/
def deployed : World := ⟨⟨fun _ => none, [], fun _ => false, fun _ => {}⟩, fun _ => none⟩

def advances (thread count : Nat) : List (Turn Request Choice) :=
  List.replicate count (.advance thread ⟨.none, 1000, .failed, .answered ⟨200, []⟩, true⟩)

def sends : Command → Option Gateway.Outgoing
  | .gateway (.send out) => some out
  | _ => none

end Example

end LetsEmbed.Platform
