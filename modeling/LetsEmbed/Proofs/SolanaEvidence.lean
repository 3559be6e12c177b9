import LetsEmbed.Solana

/-! What the metadata of a Solana transaction shows about the deposit address,
and on which metadata a top-up decides by exactly that. -/

namespace LetsEmbed.Solana
open Config

section Metadata
variable (result : Json) (deposit : String)

def accountKeys : Option (List Json) := (((result.index "transaction").index "message").index "accountKeys").asArray

def feePayer : Option String := (accountKeys result).bind (pubkeyAt · 0)

def failed : Bool := ((result.index "meta").get "err").any (!·.isNull)

def balances (key : String) : Option (List Json) := ((result.index "meta").index key).asArray

def lamports (key : String) (i : Nat) : Option Nat := (((result.index "meta").index key).getAt i).bind Json.asU64

def depositIndex : Option Nat :=
  let keys := (accountKeys result).getD []
  (List.range keys.length).find? fun i => pubkeyAt keys i = some deposit

end Metadata

section Tokens
variable (mint deposit : String)

def tokenIndex (entry : Json) : Option Nat := (entry.get "accountIndex").bind Json.asU64

def Deposited (entry : Json) : Prop :=
  (entry.get "mint").bind Json.asStr = some mint ∧ (entry.get "owner").bind Json.asStr = some deposit

instance (entry : Json) : Decidable (Deposited mint deposit entry) := inferInstanceAs (Decidable (_ ∧ _))

/-- The balance of an account before and after, from its entry after. Before the
transaction the same account held the same token for the same owner, or nothing. -/
def change (pre : List Json) (entry : Json) : Option (Nat × Nat) := do
  let index ← tokenIndex entry
  let after ← tokenAmount entry
  match pre.find? (tokenIndex · = some index) with
  | none => some (0, after)
  | some earlier => if Deposited mint deposit earlier then (tokenAmount earlier).map (·, after) else none

structure TokensReadable (pre post : List Json) : Prop where
  after : ∀ entry ∈ post, Deposited mint deposit entry → (change mint deposit pre entry).isSome = true
  before : ∀ entry ∈ pre, Deposited mint deposit entry →
    (tokenIndex entry).isSome = true ∧ (tokenAmount entry).isSome = true

end Tokens

section Evidence
variable (result : Json) (spec : TokenSpec) (deposit linked : String)

/-- The metadata has every balance of the deposit address in the asset. -/
def Readable : Prop :=
  match spec.contract with
  | none => (balances result "preBalances").isSome = true ∧ (balances result "postBalances").isSome = true ∧
      ∀ i, depositIndex result deposit = some i →
        (lamports result "preBalances" i).isSome = true ∧ (lamports result "postBalances" i).isSome = true
  | some mint => ∃ pre post, balances result "preTokenBalances" = some pre ∧
      balances result "postTokenBalances" = some post ∧ TokensReadable mint deposit pre post

/-- One account of the deposit address went from `before` to `after`. -/
def Moved (before after : Nat) : Prop :=
  match spec.contract with
  | none => ∃ i, depositIndex result deposit = some i ∧ lamports result "preBalances" i = some before ∧
      lamports result "postBalances" i = some after
  | some mint => ∃ pre post, balances result "preTokenBalances" = some pre ∧
      balances result "postTokenBalances" = some post ∧
      ∃ entry ∈ post, Deposited mint deposit entry ∧ change mint deposit pre entry = some (before, after)

/-- The outcome is what the evidence shows: a failure shown stands by itself, and
without readable balances nothing is decided. -/
structure Evidenced (outcome : SolOutcome) : Prop where
  credited : ∀ amount, outcome = .credited amount → failed result = false ∧ feePayer result = some linked ∧
    ∃ before after, Moved result spec deposit before after ∧ before < after ∧ amount = after - before
  rejected : ∀ message, outcome = .reject message → failed result = true ∨
    Readable result spec deposit ∧ ∀ before after, Moved result spec deposit before after → after ≤ before
  unreadable : failed result = false → ¬ Readable result spec deposit → outcome = .rpcError

def firstDeposit (mint : String) : Option Json :=
  ((balances result "postTokenBalances").getD []).find? (Deposited mint deposit ·)

/-- What is missing is found missing. -/
def Noticed : Prop :=
  match spec.contract with
  | none => ∃ i, depositIndex result deposit = some i ∧
      (lamports result "preBalances" i = none ∨ lamports result "postBalances" i = none)
  | some mint => ∃ entry, firstDeposit result deposit mint = some entry ∧ tokenAmount entry = none

/-- If any token account of the deposit address grew, the first one did. -/
def Leading : Prop :=
  ∀ mint, spec.contract = some mint → ∀ entry, firstDeposit result deposit mint = some entry →
    (∃ before after, Moved result spec deposit before after ∧ before < after) →
    ∃ pre before after, balances result "preTokenBalances" = some pre ∧
      change mint deposit pre entry = some (before, after) ∧ before < after

end Evidence

section Outcomes
variable {result : Json} {spec : TokenSpec} {deposit linked : String}

theorem evidenced_rpcError : Evidenced result spec deposit linked .rpcError where
  credited amount same := by cases same
  rejected message same := by cases same
  unreadable _ _ := rfl

theorem evidenced_failed {message : String} (shown : failed result = true) :
    Evidenced result spec deposit linked (.reject message) where
  credited amount same := by cases same
  rejected _ _ := .inl shown
  unreadable stands := by simp [shown] at stands

variable (stands : failed result = false)
include stands

theorem evidenced_wrongSender : Evidenced result spec deposit linked .wrongSender ↔ Readable result spec deposit := by
  constructor
  · intro holds
    apply Classical.byContradiction
    intro missing
    cases holds.unreadable stands missing
  · intro readable
    exact ⟨by simp, by simp, fun _ missing => (missing readable).elim⟩

theorem evidenced_reject {message : String} : Evidenced result spec deposit linked (.reject message) ↔
    Readable result spec deposit ∧ ∀ before after, Moved result spec deposit before after → after ≤ before := by
  constructor
  · intro holds
    rcases holds.rejected message rfl with shown | shown
    · cases stands.symm.trans shown
    · exact shown
  · intro shown
    exact ⟨by simp, fun _ _ => .inr shown, fun _ missing => (missing shown.1).elim⟩

theorem evidenced_credited {amount : Nat} (sender : feePayer result = some linked) :
    Evidenced result spec deposit linked (.credited amount) ↔ Readable result spec deposit ∧
      ∃ before after, Moved result spec deposit before after ∧ before < after ∧ amount = after - before := by
  constructor
  · intro holds
    refine ⟨?_, (holds.credited amount rfl).2.2⟩
    apply Classical.byContradiction
    intro missing
    cases holds.unreadable stands missing
  · rintro ⟨readable, grown⟩
    refine ⟨?_, by simp, fun _ missing => (missing readable).elim⟩
    intro other same
    cases same
    exact ⟨stands, sender, grown⟩

end Outcomes

section Branches
variable {result : Json} {spec : TokenSpec} {deposit linked : String}

theorem failed_eq : failed result = true ↔ (((result.index "meta").get "err").map Json.isNull).getD true = false := by
  rw [failed]
  cases (result.index "meta").get "err" with
  | none => simp
  | some err => simp

theorem verify_failed (shown : failed result = true) :
    verifySolana result spec deposit linked = .reject "tx failed on-chain" := by
  rw [verifySolana, if_pos (failed_eq.mp shown)]

variable (stands : failed result = false)
include stands

theorem no_error : ¬ (((result.index "meta").get "err").map Json.isNull).getD true = false := by
  rw [← failed_eq, stands]
  simp

theorem verify_unsigned (unsigned : feePayer result = none) :
    verifySolana result spec deposit linked = .rpcError := by
  rw [verifySolana, if_neg (no_error stands)]
  rw [feePayer, accountKeys] at unsigned
  cases keys : (((result.index "transaction").index "message").index "accountKeys").asArray with
  | none => rfl
  | some keys' =>
    rw [keys, Option.bind_some] at unsigned
    simp only [unsigned]

theorem verify_signed {sender : String} (signed : feePayer result = some sender) :
    verifySolana result spec deposit linked =
      if sender ≠ linked then .wrongSender
      else spec.contract.elim (verifyNative (result.index "meta") ((accountKeys result).getD []) deposit)
        fun mint => verifySpl (result.index "meta") mint deposit := by
  rw [verifySolana, if_neg (no_error stands)]
  unfold feePayer accountKeys at *
  cases keys : (((result.index "transaction").index "message").index "accountKeys").asArray with
  | none => simp [keys] at signed
  | some keys' =>
    rw [keys, Option.bind_some] at signed
    simp only [signed, Option.getD_some]
    cases spec.contract <;> rfl

end Branches

section Native
variable {result : Json} {spec : TokenSpec} {deposit linked : String}

theorem balances_of_lamports {key : String} {i amount : Nat} (found : lamports result key i = some amount) :
    (balances result key).isSome = true := by
  rw [lamports] at found
  rw [balances]
  cases value : (result.index "meta").index key with
  | arr items => rfl
  | _ => simp [value, Json.getAt] at found

theorem verifyNative_absent (absent : depositIndex result deposit = none) :
    verifyNative (result.index "meta") ((accountKeys result).getD []) deposit =
      .reject "deposit address not in transaction" := by
  rw [depositIndex] at absent
  simp only [verifyNative, absent]

theorem verifyNative_unread {i : Nat} (found : depositIndex result deposit = some i)
    (unread : lamports result "preBalances" i = none ∨ lamports result "postBalances" i = none) :
    verifyNative (result.index "meta") ((accountKeys result).getD []) deposit = .rpcError := by
  rw [depositIndex] at found
  unfold lamports at unread
  simp only [verifyNative, found]
  rcases unread with missing | missing
  · rw [missing]
  · rw [missing]
    cases (((result.index "meta").index "preBalances").getAt i).bind Json.asU64 <;> rfl

theorem verifyNative_read {i before after : Nat} (found : depositIndex result deposit = some i)
    (pre : lamports result "preBalances" i = some before) (post : lamports result "postBalances" i = some after) :
    verifyNative (result.index "meta") ((accountKeys result).getD []) deposit =
      if after ≤ before then .reject "no SOL received" else .credited (after - before) := by
  rw [depositIndex] at found
  rw [lamports] at pre post
  simp only [verifyNative, found, pre, post]

theorem native_evidenced (native : spec.contract = none) (stands : failed result = false)
    (sender : feePayer result = some linked) :
    Evidenced result spec deposit linked
        (verifyNative (result.index "meta") ((accountKeys result).getD []) deposit) ↔
      Noticed result spec deposit ∨ Readable result spec deposit := by
  cases found : depositIndex result deposit with
  | none =>
    have unnoticed : ¬ Noticed result spec deposit := by simp [Noticed, native, found]
    have unmoved (before after : Nat) : ¬ Moved result spec deposit before after := by simp [Moved, native, found]
    rw [verifyNative_absent found, evidenced_reject stands, or_iff_right unnoticed]
    exact and_iff_left fun before after moved => (unmoved before after moved).elim
  | some i =>
    by_cases unread : lamports result "preBalances" i = none ∨ lamports result "postBalances" i = none
    · rw [verifyNative_unread found unread]
      exact iff_of_true evidenced_rpcError (.inl (by simp [Noticed, native, found, unread]))
    · simp only [not_or, Option.ne_none_iff_exists'] at unread
      obtain ⟨⟨before, pre⟩, after, post⟩ := unread
      have readable : Readable result spec deposit := by
        simp only [Readable, native]
        refine ⟨balances_of_lamports pre, balances_of_lamports post, ?_⟩
        intro j same
        cases found.symm.trans same
        simp [pre, post]
      have only (first last : Nat) : Moved result spec deposit first last ↔ first = before ∧ last = after := by
        simp [Moved, native, found, pre, post, eq_comm]
      rw [verifyNative_read found pre post]
      refine iff_of_true ?_ (.inr readable)
      split
      next shrank =>
        rw [evidenced_reject stands]
        refine ⟨readable, ?_⟩
        intro first last moved
        obtain ⟨rfl, rfl⟩ := (only first last).mp moved
        exact shrank
      next grew =>
        rw [evidenced_credited stands sender]
        exact ⟨readable, before, after, (only before after).mpr ⟨rfl, rfl⟩, Nat.lt_of_not_le grew, rfl⟩

end Native

section Tokens
variable {result : Json} {spec : TokenSpec} {mint deposit linked : String} {entry : Json}

/-- What the code takes for the balance before: nothing where it finds no amount. -/
def priorAmount (result entry : Json) : Nat :=
  ((((balances result "preTokenBalances").getD []).find? fun earlier =>
    (tokenIndex entry).isSome ∧ tokenIndex earlier = tokenIndex entry).bind tokenAmount).getD 0

theorem verifySpl_absent (absent : firstDeposit result deposit mint = none) :
    verifySpl (result.index "meta") mint deposit = .reject "no token received" := by
  have missing : (((result.index "meta").index "postTokenBalances").asArray.getD []).find? (fun e =>
      decide ((e.get "mint").bind Json.asStr = some mint ∧ (e.get "owner").bind Json.asStr = some deposit)) = none := absent
  simp only [verifySpl, missing]

theorem verifySpl_found (found : firstDeposit result deposit mint = some entry) :
    verifySpl (result.index "meta") mint deposit = (tokenAmount entry).elim .rpcError fun after =>
      if after ≤ priorAmount result entry then .reject "no token received"
      else .credited (after - priorAmount result entry) := by
  have first : (((result.index "meta").index "postTokenBalances").asArray.getD []).find? (fun e =>
      decide ((e.get "mint").bind Json.asStr = some mint ∧ (e.get "owner").bind Json.asStr = some deposit)) =
        some entry := found
  simp only [verifySpl, first]
  cases tokenAmount entry with
  | none => rfl
  | some after => rfl

theorem change_read {before after : Nat} {pre : List Json} (held : balances result "preTokenBalances" = some pre)
    (changed : change mint deposit pre entry = some (before, after)) :
    tokenAmount entry = some after ∧ priorAmount result entry = before := by
  rw [change] at changed
  cases index : tokenIndex entry with
  | none => simp [index] at changed
  | some index' =>
    cases amount : tokenAmount entry with
    | none => simp [index, amount] at changed
    | some after' =>
      simp only [index, amount, Option.bind_eq_bind, Option.bind_some] at changed
      rw [priorAmount]
      simp only [held, Option.getD_some, index, Option.isSome_some, true_and]
      cases earlier : pre.find? fun earlier => decide (tokenIndex earlier = some index') with
      | none =>
        simp only [earlier, Option.some.injEq, Prod.mk.injEq] at changed
        exact ⟨by rw [changed.2], changed.1⟩
      | some entry' =>
        simp only [earlier] at changed
        split at changed
        · simp only [Option.map_eq_some_iff, Prod.mk.injEq] at changed
          obtain ⟨before', prior, rfl, rfl⟩ := changed
          exact ⟨rfl, by rw [Option.bind_some, prior, Option.getD_some]⟩
        · cases changed

theorem spl_evidenced (token : spec.contract = some mint) (stands : failed result = false)
    (sender : feePayer result = some linked) :
    Evidenced result spec deposit linked (verifySpl (result.index "meta") mint deposit) ↔
      Noticed result spec deposit ∨ Readable result spec deposit ∧ Leading result spec deposit := by
  cases first : firstDeposit result deposit mint with
  | none =>
    have unnoticed : ¬ Noticed result spec deposit := by simp [Noticed, token, first]
    have leading : Leading result spec deposit := by simp [Leading, token, first]
    have unmoved (before after : Nat) : ¬ Moved result spec deposit before after := by
      simp only [Moved, token]
      rintro ⟨pre, post, _, held, entry, member, deposited, _⟩
      rw [firstDeposit] at first
      rw [held, Option.getD_some] at first
      have none := List.find?_eq_none.mp first entry member
      simp [deposited] at none
    rw [verifySpl_absent first, evidenced_reject stands, or_iff_right unnoticed, and_iff_left leading]
    exact and_iff_left fun before after moved => (unmoved before after moved).elim
  | some entry =>
    rw [verifySpl_found first]
    cases amount : tokenAmount entry with
    | none => exact iff_of_true evidenced_rpcError (.inl (by simp [Noticed, token, first, amount]))
    | some after =>
      have unnoticed : ¬ Noticed result spec deposit := by simp [Noticed, token, first, amount]
      rw [or_iff_right unnoticed, Option.elim_some]
      by_cases readable : Readable result spec deposit
      · obtain ⟨pre, post, earlier, later, read⟩ : ∃ pre post, balances result "preTokenBalances" = some pre ∧
            balances result "postTokenBalances" = some post ∧ TokensReadable mint deposit pre post := by
          simpa [Readable, token] using readable
        have found := first
        rw [firstDeposit] at found
        rw [later, Option.getD_some] at found
        have deposited : Deposited mint deposit entry := by simpa using List.find?_some found
        have member : entry ∈ post := List.mem_of_find?_eq_some found
        obtain ⟨⟨before, after'⟩, changed⟩ := Option.isSome_iff_exists.mp (read.after entry member deposited)
        obtain ⟨same, prior⟩ := change_read earlier changed
        cases amount.symm.trans same
        have moved : Moved result spec deposit before after := by
          simp only [Moved, token]
          exact ⟨pre, post, earlier, later, entry, member, deposited, changed⟩
        rw [prior]
        split
        next shrank =>
          rw [evidenced_reject stands]
          apply and_congr_right
          intro _
          constructor
          · rintro none mint' _ entry' _ ⟨first', last, grown, grew⟩
            exact absurd (none first' last grown) (Nat.not_le_of_lt grew)
          · intro leading first' last grown
            apply Nat.le_of_not_lt
            intro grew
            obtain ⟨pre', before', after', earlier', changed', grew'⟩ :=
              leading mint token entry first ⟨first', last, grown, grew⟩
            cases earlier.symm.trans earlier'
            cases changed.symm.trans changed'
            exact absurd shrank (Nat.not_le_of_lt grew')
        next grew =>
          rw [evidenced_credited stands sender]
          apply and_congr_right
          intro _
          refine iff_of_true ⟨before, after, moved, Nat.lt_of_not_le grew, rfl⟩ ?_
          intro mint' token' entry' first' _
          cases token.symm.trans token'
          cases first.symm.trans first'
          exact ⟨pre, before, after, earlier, changed, Nat.lt_of_not_le grew⟩
      · refine iff_of_false ?_ fun holds => readable holds.1
        split
        · rw [evidenced_reject stands]
          exact fun holds => readable holds.1
        · rw [evidenced_credited stands sender]
          exact fun holds => readable holds.1

end Tokens

/-- A verification decides by the evidence if and only if the transaction failed,
or what the code needs is missing where it looks, or all balances of the deposit
address are readable and its first token account grew if any did. -/
theorem evidenced_iff (result : Json) (spec : TokenSpec) (deposit linked : String) :
    Evidenced result spec deposit linked (verifySolana result spec deposit linked) ↔
      failed result = true ∨ feePayer result = none ∨
      (feePayer result = some linked ∧ Noticed result spec deposit) ∨
      (Readable result spec deposit ∧ (feePayer result = some linked → Leading result spec deposit)) := by
  cases stands : failed result with
  | true =>
    rw [verify_failed stands]
    exact iff_of_true (evidenced_failed stands) (.inl rfl)
  | false =>
    cases signed : feePayer result with
    | none =>
      rw [verify_unsigned stands signed]
      exact iff_of_true evidenced_rpcError (.inr (.inl rfl))
    | some sender =>
      rw [verify_signed stands signed]
      by_cases own : sender = linked
      · subst own
        cases contract : spec.contract with
        | none =>
          have leading : Leading result spec deposit := by simp [Leading, contract]
          simpa [leading] using native_evidenced contract stands signed
        | some mint => simpa using spl_evidenced contract stands signed
      · simpa [own] using evidenced_wrongSender stands

section Example

/-- An amount missing before the transaction: the whole balance after it is
taken for received. -/
theorem balance_credited :
    let mint := "EPjFWdd5AufqSSqeM2qN1xzybapC8G4wEGGkZwyTDt1v"
    let spec : TokenSpec := ⟨.solana, "usdc", 6, some mint, none⟩
    let entry (amount : Json) : Json := .obj [("accountIndex", .unsigned 1), ("mint", .str mint), ("owner", .str "deposit"),
      ("uiTokenAmount", .obj [("amount", amount)])]
    let result : Json := .obj [("meta", .obj [("err", .null), ("preTokenBalances", .arr [entry .null]),
        ("postTokenBalances", .arr [entry (.str "900000001")])]),
      ("transaction", .obj [("message", .obj [("accountKeys", .arr [.str "linked"])])])]
    verifySolana result spec "deposit" "linked" = .credited 900000001 ∧
      ¬ Evidenced result spec "deposit" "linked" (verifySolana result spec "deposit" "linked") := by
  intro mint spec entry result
  have outcome : verifySolana result spec "deposit" "linked" = .credited 900000001 := by decide +kernel
  refine ⟨outcome, fun holds => ?_⟩
  have unreadable : ¬ Readable result spec "deposit" := by
    rintro ⟨pre, post, earlier, later, read⟩
    cases earlier
    have missing := (read.before (entry .null) (List.mem_singleton_self _) ⟨rfl, rfl⟩).2
    cases missing
  cases outcome.symm.trans (holds.unreadable rfl unreadable)

end Example

end LetsEmbed.Solana
