import LetsEmbed.Proofs.PaymentsRules

/-! The commands a top-up ever issues, and the ways out of it: before it has a
row, past giving its row up, or past its credit. -/

namespace LetsEmbed.Payments
open Account Config Rates Solana Systems Text

/-- Up to the credit, and with it. -/
def verifies : Command → Bool
  | .now | .fetch .. | .insertPayment .. | .rejectPayment _ | .deletePending _ | .selectSolana _ => true
  | _ => false

def spends : Command → Bool
  | .creditPayment .. | .doCredit .. => true
  | command => verifies command

/-- What is asked and answered before there is a row. -/
def unlocked : (command : Command) → command.Reply → Bool
  | .now, _ | .selectSolana _, _ => true
  | .insertPayment .., reply => !reply.isOk
  | _, _ => false

/-- A protocol that forbids no verification, with the states before there is a row
and the answers fit to be given. -/
structure Outs {S : Type} (P : Protocol Command Command.Reply S) (idle : S → Prop) (exit : S → Answer → Prop) : Prop where
  asks : ∀ s command, verifies command = true → P.asks s command
  idles : ∀ s command reply, idle s → unlocked command reply = true → idle (P.after s command reply)
  unlocks : ∀ s answer, idle s → exit s answer
  deletes : ∀ s hash reply answer, exit (P.after s (.deletePending hash) reply) answer
  rejects : ∀ s hash reply answer, exit (P.after s (.rejectPayment hash) reply) answer
  panics : ∀ s, exit s .panic

section Steps
variable {S : Type} {P : Protocol Command Command.Reply S} {idle : S → Prop} {exit : S → Answer → Prop} {s : S}
  {st : AppState} {addr hash text : String} {spec : TokenSpec} (outs : Outs P idle exit)
include outs

theorem release_outs : Releases P exit hash s :=
  ⟨outs.asks _ _ rfl, fun reply _ answer => outs.deletes s hash reply answer⟩

theorem reject_outs : Rejects P exit hash s :=
  ⟨outs.asks _ _ rfl, fun reply _ answer => outs.rejects s hash reply answer⟩

theorem step_outs {command : Command} {next : S → command.Reply → Prop} (known : verifies command = true)
    (goes : ∀ late reply, next late reply) : P.Step s command next :=
  ⟨outs.asks s command known, fun reply _ => goes _ reply⟩

theorem lock_outs {ok : S → Unit → Prop} (start : idle s) (next : ∀ late, ok late ()) :
    (lock addr spec hash).wp P ok exit s := by
  apply lock_rule
  refine ⟨outs.asks _ _ rfl, fun now _ => ⟨outs.asks _ _ rfl, fun reply _ => ⟨fun _ => next _, fun failed answer => ?_⟩⟩⟩
  have waiting := outs.idles s .now now start rfl
  apply outs.unlocks
  apply outs.idles _ _ reply waiting
  cases reply with
  | ok => exact (failed rfl).elim
  | error failure => rfl

theorem lockHash_outs {ok : S → String → Prop} (start : idle s) (next : ∀ late hash, ok late hash) :
    (lockHash st addr spec text).wp P ok exit s := by
  apply lockHash_rule
  · exact fun _ => lock_outs outs start fun late => next late _
  · exact fun _ answer => outs.unlocks s answer start

theorem price_outs {ok : S → Int → Prop} {amount : Nat} (next : ∀ late points, ok late points) :
    (price st spec hash amount).wp P ok exit s := by
  apply price_rule
  cases spec.feed with
  | none => exact ⟨fun _ => next _ _, fun _ => reject_outs outs⟩
  | some feed =>
    refine step_outs outs rfl fun _ _ => step_outs outs rfl fun late _ => ⟨?_, fun _ => release_outs outs⟩
    exact fun _ _ => ⟨fun _ => next _ _, fun _ => reject_outs outs⟩

theorem fetchTx_outs {ok : S → RpcTx → Prop} (next : ∀ late tx, ok late tx) : (fetchTx st hash).wp P ok exit s := by
  apply fetchTx_rule
  exact step_outs outs rfl fun late _ => ⟨fun tx _ => next late tx, fun _ => release_outs outs⟩

theorem checkSender_outs {ok : S → Unit → Prop} {tx : RpcTx} (next : ∀ late, ok late ()) :
    (checkSender st addr hash tx).wp P ok exit s :=
  checkSender_rule (fun _ => next s) fun _ => release_outs outs

theorem fetchReceipt_outs {ok : S → RpcReceipt → Prop} (next : ∀ late receipt, ok late receipt) :
    (fetchReceipt st hash).wp P ok exit s := by
  apply fetchReceipt_rule
  exact step_outs outs rfl fun late _ => ⟨fun receipt _ => next late receipt, fun _ => release_outs outs⟩

theorem minedBlock_outs {ok : S → Nat → Prop} {receipt : RpcReceipt} (next : ∀ late block, ok late block) :
    (minedBlock hash receipt).wp P ok exit s :=
  minedBlock_rule (fun block _ _ => next s block) (fun _ _ _ => reject_outs outs) fun _ => release_outs outs

theorem confirm_outs {ok : S → Unit → Prop} {block : Nat} (next : ∀ late, ok late ()) :
    (confirm st hash block).wp P ok exit s := by
  apply confirm_rule
  exact step_outs outs rfl fun late _ => ⟨fun _ => next late, fun _ => release_outs outs⟩

theorem earnNative_outs (start : idle s) : (earnNative st addr spec text).wp P (fun _ _ => True) exit s := by
  simp only [earnNative, Handler.wp_bind]
  refine lockHash_outs outs start fun _ hash => fetchTx_outs outs fun _ tx => ?_
  cases verifyNativeTx st.toLowercase tx st.depositAddress with
  | error message => exact (Handler.wp_bind _ _).mpr (reject_rule (reject_outs outs))
  | ok amount =>
    simp only [Handler.wp_bind, Handler.wp_pure]
    refine checkSender_outs outs fun _ => fetchReceipt_outs outs fun _ receipt => minedBlock_outs outs fun _ block => ?_
    exact confirm_outs outs fun _ => price_outs outs fun _ _ => trivial

theorem earnErc20_outs {contract : String} (start : idle s) :
    (earnErc20 st addr spec contract text).wp P (fun _ _ => True) exit s := by
  simp only [earnErc20, Handler.wp_bind]
  refine lockHash_outs outs start fun _ hash => fetchTx_outs outs fun _ tx => checkSender_outs outs fun _ => ?_
  refine fetchReceipt_outs outs fun _ receipt => minedBlock_outs outs fun late block => ?_
  cases matchTransferLog st.toLowercase contract ((stripPrefix "0x" st.depositAddress).getD st.depositAddress)
      ((stripPrefix "0x" addr).getD addr) receipt.logs with
  | none => exact (Handler.wp_bind _ _).mpr ((Handler.wp_throw _).mpr (outs.panics late))
  | some transfer =>
    cases transfer with
    | none => exact (Handler.wp_bind _ _).mpr (reject_rule (reject_outs outs))
    | some amount =>
      simp only [Handler.wp_bind, Handler.wp_pure]
      exact confirm_outs outs fun _ => price_outs outs fun _ _ => trivial

theorem earnSolana_outs (start : idle s) : (earnSolana st addr spec text).wp P (fun _ _ => True) exit s := by
  simp only [earnSolana, Handler.wp_bind]
  refine require_rule (fun _ => ?_) fun _ => (Handler.wp_throw _).mpr (outs.unlocks s _ start)
  apply solanaWallet_rule
  refine ⟨outs.asks _ _ rfl, fun looked _ => ?_⟩
  have waiting := outs.idles s _ looked start rfl
  refine ⟨fun wallet _ => lock_outs outs waiting fun late => ?_, fun _ answer => outs.unlocks _ answer waiting⟩
  apply topupSolana_rule
  refine step_outs outs rfl fun late _ => ⟨fun value _ => ?_, fun _ =>
    ⟨(Handler.wp_bind _ _).mpr (release_rule (release_outs outs)),
      (Handler.wp_bind _ _).mpr (release_rule (release_outs outs))⟩⟩
  cases verifySolana value spec st.solDepositAddress wallet with
  | credited amount =>
    simp only [Handler.wp_bind, Handler.wp_pure]
    exact price_outs outs fun _ _ => trivial
  | reject message => exact (Handler.wp_bind _ _).mpr (reject_rule (reject_outs outs))
  | _ => exact (Handler.wp_bind _ _).mpr (release_rule (release_outs outs))

theorem earn_outs (start : idle s) : (earn st addr spec text).wp P (fun _ _ => True) exit s := by
  unfold earn
  split
  · exact earnNative_outs outs start
  · exact earnErc20_outs outs start
  · exact earnSolana_outs outs start

/-- A top-up answers once its row is given up or its credit finalized, or while it
has none. -/
theorem topup_outs {ok : S → Answer → Prop} (session : Option String) (req : TopupReq)
    (pays : ∀ s command, spends command = true → P.asks s command)
    (credited : ∀ s hash amount points reply answer, ok (P.after s (.creditPayment hash amount points) reply) answer)
    (start : idle s) : (topup st session req).wp P ok exit s := by
  unfold topup
  cases session with
  | none => exact (Handler.wp_throw _).mpr (outs.unlocks s _ start)
  | some addr =>
    dsimp only
    cases resolveSpec st req with
    | error message => exact (Handler.wp_throw _).mpr (outs.unlocks s _ start)
    | ok spec =>
      rw [Handler.wp_bind]
      apply Handler.wp_mono (earn_outs outs start)
      · intro late earned _
        simp only [finalizeCredit, Handler.wp_bind, Handler.wp_perform]
        refine ⟨pays _ _ rfl, fun reply _ => ?_⟩
        cases reply with
        | error failure => exact release_rule (release_outs outs)
        | ok resp =>
          simp only [Handler.wp_bind, Handler.wp_perform, Handler.wp_pure]
          exact ⟨pays _ _ rfl, fun reply _ => credited _ _ _ _ reply _⟩
      · exact fun _ _ => id

end Steps

section Free
variable {S : Type} {P : Protocol Command Command.Reply S} {s : S} {st : AppState}

theorem outs_free (free : ∀ s command, verifies command = true → P.asks s command) :
    Outs P (fun _ => True) (fun _ _ => True) :=
  ⟨free, fun _ _ _ _ _ => trivial, fun _ _ _ => trivial, fun _ _ _ _ => trivial, fun _ _ _ _ => trivial, fun _ => trivial⟩

theorem earn_free {addr text : String} {spec : TokenSpec} (free : ∀ s command, verifies command = true → P.asks s command) :
    (earn st addr spec text).wp P (fun _ _ => True) (fun _ _ => True) s := earn_outs (outs_free free) trivial

theorem verifies_spends {command : Command} (known : verifies command = true) : spends command = true := by
  cases command with
  | creditPayment hash amount points => cases known
  | doCredit addr req => cases known
  | _ => exact known

theorem topup_free (session : Option String) (req : TopupReq) (free : ∀ s command, spends command = true → P.asks s command) :
    (topup st session req).wp P (fun _ _ => True) (fun _ _ => True) s :=
  topup_outs (outs_free fun s command known => free s command (verifies_spends known)) session req free
    (fun _ _ _ _ _ _ => trivial) trivial

end Free

end LetsEmbed.Payments
