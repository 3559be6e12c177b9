import LetsEmbed.Worker
import LetsEmbed.Proofs.PaymentsFootprint

/-! Rules for the requests that take a nonce and for unlinking, over what may be
asked after which exchanges. Each says where in its request a command with an
effect stands. -/

namespace LetsEmbed.Auth
open Config Payments SolanaLink Systems

variable {asks : List (Exchange Command Command.Reply) → Command → Prop} {past : List (Exchange Command Command.Reply)}
  {ok : List (Exchange Command Command.Reply) → Answer → Prop} {st : AppState}

/-- The gate may be entered anywhere, and the nonce it finds deleted at once. -/
def Gated (asks : List (Exchange Command Command.Reply) → Command → Prop) : Prop :=
  ∀ past key, asks past (.getNonce key) ∧ asks (⟨.getNonce key, .ok true⟩ :: past) (.deleteNonce key)

theorem useNonce_rule {ok : List (Exchange Command Command.Reply) → Unit → Prop} {nonce : String} {unknown : Nat}
    (gated : Gated asks) (next : ∀ late, ok late ()) :
    (useNonce nonce unknown).wp (Program.recording asks) ok (fun _ _ => True) past := by
  apply Handler.wp_ask (gated _ _).1
  intro found
  split
  · exact (Handler.wp_throw _).mpr trivial
  · exact (Handler.wp_throw _).mpr trivial
  · apply Handler.wp_ask (gated _ _).2
    intro deleted
    split
    · exact (Handler.wp_throw _).mpr trivial
    · exact (Handler.wp_pure ()).mpr (next _)

theorem link_rule {session : Option String} {req : LinkSolReq} (gated : Gated asks)
    (looks : ∀ past, asks past (.selectUser req.solanaAddress) ∧ asks past (.selectOwner req.solanaAddress))
    (links : ∀ past owner addr, session = some addr →
      asks (⟨.selectOwner req.solanaAddress, .ok owner⟩ :: ⟨.selectUser req.solanaAddress, .ok none⟩ :: past)
        (.updateSolana addr (some req.solanaAddress)))
    (done : ∀ late, ok late (.response 200 (.linked req.solanaAddress))) :
    (link st session req).wp (Program.recording asks) ok (fun _ _ => True) past := by
  unfold link
  split
  · exact (Handler.wp_throw _).mpr trivial
  next addr =>
    refine (Handler.wp_bind _ _).mpr (useNonce_rule gated fun _ => ?_)
    refine (Handler.wp_bind _ _).mpr (require_rule (fun _ => ?_) fun _ => (Handler.wp_throw _).mpr trivial)
    apply Handler.wp_ask (looks _).1
    intro standalone
    split
    · exact (Handler.wp_throw _).mpr trivial
    · exact (Handler.wp_throw _).mpr trivial
    · apply Handler.wp_ask (looks _).2
      intro owner
      split
      · exact (Handler.wp_throw _).mpr trivial
      · refine (Handler.wp_bind _ _).mpr (require_rule (fun _ => ?_) fun _ => (Handler.wp_throw _).mpr trivial)
        apply Handler.wp_ask (links _ _ addr rfl)
        intro updated
        split
        · exact (Handler.wp_throw _).mpr trivial
        · exact (Handler.wp_throw _).mpr trivial
        · exact (Handler.wp_pure _).mpr (done _)

theorem unlink_rule {session : Option String} (unlinks : ∀ addr, session = some addr → asks past (.updateSolana addr none))
    (done : ∀ late, ok late (.response 200 .empty)) :
    (unlink session).wp (Program.recording asks) ok (fun _ _ => True) past := by
  unfold unlink
  split
  · exact (Handler.wp_throw _).mpr trivial
  next addr =>
    apply Handler.wp_ask (unlinks addr rfl)
    intro updated
    split
    · exact (Handler.wp_throw _).mpr trivial
    · exact (Handler.wp_pure _).mpr (done _)

/-- The end of both sign-ins: the account is known, and opened if it is new. -/
def Opens (asks : List (Exchange Command Command.Reply) → Command → Prop) (addr : String) : Prop :=
  ∀ past, asks past .now ∧ asks past (.selectBanned addr) ∧ asks past (.doInit addr)

theorem verifySolana_rule {req : SiwsReq} (gated : Gated asks) (opens : Opens asks req.solanaAddress)
    (looks : ∀ past, asks past (.selectOwner req.solanaAddress))
    (creates : ∀ past now, asks (⟨.selectOwner req.solanaAddress, .ok none⟩ :: past) (.upsertUser req.solanaAddress now))
    (done : ∀ late now, ok late (.response 200 (.session req.solanaAddress now (now + sessionTtlSecs)))) :
    (verifySolana st req).wp (Program.recording asks) ok (fun _ _ => True) past := by
  refine (Handler.wp_bind _ _).mpr (require_rule (fun _ => ?_) fun _ => (Handler.wp_throw _).mpr trivial)
  refine (Handler.wp_bind _ _).mpr (useNonce_rule gated fun _ => ?_)
  refine (Handler.wp_bind _ _).mpr (require_rule (fun _ => ?_) fun _ => (Handler.wp_throw _).mpr trivial)
  apply Handler.wp_ask (opens _).1
  intro now
  apply Handler.wp_ask (looks _)
  intro owner
  split
  · exact (Handler.wp_throw _).mpr trivial
  · exact (Handler.wp_throw _).mpr trivial
  · apply Handler.wp_ask (creates _ now)
    intro created
    split
    · exact (Handler.wp_throw _).mpr trivial
    · apply Handler.wp_ask (opens _).2.1
      intro banned
      split
      · exact (Handler.wp_throw _).mpr trivial
      · refine (Handler.wp_bind _ _).mpr (require_rule (fun _ => ?_) fun _ => (Handler.wp_throw _).mpr trivial)
        apply Handler.wp_ask (opens _).2.2
        intro started
        split
        · exact (Handler.wp_throw _).mpr trivial
        · exact (Handler.wp_pure _).mpr (done _ _)

theorem verify_rule {st : SiweState} {req : VerifyReq} (gated : Gated asks) (opens : ∀ addr, Opens asks addr)
    (creates : ∀ past addr now, asks past (.upsertUser addr now))
    (done : ∀ late addr now, ok late (.response 200 (.session addr now (now + sessionTtlSecs)))) :
    (verify st req).wp (Program.recording asks) ok (fun _ _ => True) past := by
  rw [verify]
  split
  · exact (Handler.wp_throw _).mpr trivial
  next msg parsed =>
    refine (Handler.wp_bind _ _).mpr (require_rule (fun _ => ?_) fun _ => (Handler.wp_throw _).mpr trivial)
    refine (Handler.wp_bind _ _).mpr (require_rule (fun _ => ?_) fun _ => (Handler.wp_throw _).mpr trivial)
    refine (Handler.wp_bind _ _).mpr (require_rule (fun _ => ?_) fun _ => (Handler.wp_throw _).mpr trivial)
    apply Handler.wp_ask (opens "" _).1
    intro now
    split
    · exact (Handler.wp_throw _).mpr trivial
    · refine (Handler.wp_bind _ _).mpr (useNonce_rule gated fun _ => ?_)
      split
      · exact (Handler.wp_throw _).mpr trivial
      next addr recovered =>
        refine (Handler.wp_bind _ _).mpr (require_rule (fun _ => ?_) fun _ => (Handler.wp_throw _).mpr trivial)
        apply Handler.wp_ask (creates _ addr now)
        intro created
        split
        · exact (Handler.wp_throw _).mpr trivial
        · apply Handler.wp_ask (opens addr _).2.1
          intro banned
          split
          · exact (Handler.wp_throw _).mpr trivial
          · refine (Handler.wp_bind _ _).mpr (require_rule (fun _ => ?_) fun _ => (Handler.wp_throw _).mpr trivial)
            apply Handler.wp_ask (opens addr _).2.2
            intro started
            split
            · exact (Handler.wp_throw _).mpr trivial
            · exact (Handler.wp_pure _).mpr (done _ _ _)

end LetsEmbed.Auth
