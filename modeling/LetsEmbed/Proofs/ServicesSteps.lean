import LetsEmbed.Services

/-! What one command does to the shared services, whether or not its response
arrives: to the row of a hash, and to the storage of an account. -/

namespace LetsEmbed
open Account

namespace Account
variable (s : Storage) (req : CreditReq)

theorem credit_balance : ∃ resp, (credit s req).1 = .balance resp := by
  rw [credit]
  dsimp only
  split
  · exact ⟨_, rfl⟩
  · exact ⟨_, rfl⟩

theorem credit_marker (key : String) : ((credit s req).2.credit key).isSome = true ↔
    (s.credit key).isSome = true ∨ key = req.key := by
  rw [credit]
  dsimp only
  split
  next known =>
    constructor
    · exact .inl
    · rintro (before | rfl)
      · exact before
      · exact known
  · by_cases same : key = req.key
    · simp [same]
    · simp [same]

theorem init_marker (now : Nat) (address : String) : (init s now address).2.credit = s.credit := by
  change (ensureInit s).credit = s.credit
  rw [ensureInit]
  split
  · rfl
  · rfl

end Account

variable {w : World} {choice : Choice} {hash : String}

section Fault
variable {α : Type} {fault : Fault} {result : Except Failure α × World}

theorem Fault.apply_of_reached (reached : fault ≠ .refused) : (fault.apply w result).2 = result.2 := by
  cases fault with
  | refused => exact (reached rfl).elim
  | none => rfl
  | lost => rfl

/-- A call that fails has left the world alone, or taken effect all the same. -/
theorem Fault.apply_world : (fault.apply w result).2 = w ∨ fault ≠ .refused ∧ (fault.apply w result).2 = result.2 := by
  by_cases refused : fault = .refused
  · rw [refused]
    exact .inl rfl
  · exact .inr ⟨refused, Fault.apply_of_reached refused⟩

/-- A read that answers says what is there. -/
theorem Fault.apply_read {found value : α} (answered : (fault.apply w (.ok found, w)).1 = .ok value) :
    found = value ∧ (fault.apply w (.ok found, w)).2 = w := by
  cases fault with
  | none => exact ⟨Except.ok.inj answered, rfl⟩
  | refused => cases answered
  | lost => cases answered

end Fault

/-- What a call leaves behind when it takes effect. -/
inductive Writes (w : World) (now : Nat) : Command → World → Prop where
  | inserted (hash addr chain token : String) (createdAt : Nat) (free : w.payments hash = none) :
    Writes w now (.insertPayment hash addr chain token createdAt)
      (w.setPayment hash (some ⟨addr, chain, token, 0, 0, .pending, createdAt⟩))
  | rejected (hash : String) (row : PaymentRow) (found : w.payments hash = some row) :
    Writes w now (.rejectPayment hash) (w.setPayment hash (some { row with status := .rejected }))
  | credited (hash : String) (amount : Nat) (points : Int) (row : PaymentRow) (found : w.payments hash = some row) :
    Writes w now (.creditPayment hash amount points)
      (w.setPayment hash (some { row with amount := amount, points := points, status := .credited }))
  | deleted (hash : String) : Writes w now (.deletePending hash) (w.setPayment hash none)
  | linked (address : String) (wallet : Option String) :
    Writes w now (.updateSolana address wallet) (w.updateSolana address wallet).2
  | recorded (address : String) (lastLogin : Nat) :
    Writes w now (.upsertUser address lastLogin) (w.upsertUser address lastLogin)
  | spent (key : String) : Writes w now (.deleteNonce key) { w with nonces := Function.update w.nonces key false }
  | started (address : String) :
    Writes w now (.doInit address) (w.setAccount address (Account.init (w.accounts address) now address).2)
  | paid (address : String) (req : CreditReq) :
    Writes w now (.doCredit address req) (w.setAccount address (Account.credit (w.accounts address) req).2)

theorem serve_cases (w : World) (command : Command) (choice : Choice) : (serve w command choice).2 = w ∨
    choice.fault ≠ .refused ∧ ∃ after, (serve w command choice).2 = after ∧ Writes w choice.now command after := by
  by_cases reached : choice.fault = .refused
  · refine .inl ?_
    cases command with
    | now => rfl
    | fetch url body => rfl
    | _ =>
      rw [serve, reached]
      rfl
  have late {α : Type} (result : Except Failure α × World) : (choice.fault.apply w result).2 = result.2 :=
    Fault.apply_of_reached reached
  have effective {command : Command} {after : World} (same : (serve w command choice).2 = after)
      (writes : Writes w choice.now command after) :
      (serve w command choice).2 = w ∨
        choice.fault ≠ .refused ∧ ∃ after, (serve w command choice).2 = after ∧ Writes w choice.now command after :=
    .inr ⟨reached, after, same, writes⟩
  cases command with
  | now => exact .inl rfl
  | fetch url body => exact .inl rfl
  | insertPayment hash addr chain token createdAt =>
    cases found : w.payments hash with
    | some row =>
      refine .inl ?_
      rw [serve, late, World.insertPayment, found]
    | none =>
      refine effective ?_ (.inserted hash addr chain token createdAt found)
      rw [serve, late, World.insertPayment, found]
  | rejectPayment hash =>
    cases found : w.payments hash with
    | none =>
      refine .inl ?_
      rw [serve, late, World.updateStatus, found]
    | some row =>
      refine effective ?_ (.rejected hash row found)
      rw [serve, late, World.updateStatus, found]
  | creditPayment hash amount points =>
    cases found : w.payments hash with
    | none =>
      refine .inl ?_
      rw [serve, late, World.updateStatus, found]
    | some row =>
      refine effective ?_ (.credited hash amount points row found)
      rw [serve, late, World.updateStatus, found]
  | deletePending hash =>
    cases found : w.payments hash with
    | none =>
      refine .inl ?_
      rw [serve, late, World.deletePending, found]
    | some row =>
      by_cases pending : row.status = .pending
      · refine effective ?_ (.deleted hash)
        rw [serve, late, World.deletePending, found]
        exact if_pos pending
      · refine .inl ?_
        rw [serve, late, World.deletePending, found]
        exact if_neg pending
  | updateSolana address wallet => exact effective (late _) (.linked address wallet)
  | upsertUser address lastLogin => exact effective (late _) (.recorded address lastLogin)
  | deleteNonce key => exact effective (late _) (.spent key)
  | doInit address => exact effective (late _) (.started address)
  | doCredit address req => exact effective (late _) (.paid address req)
  | _ => exact .inl (late _)

theorem World.updateSolana_frame {address : String} {wallet : Option String} :
    (w.updateSolana address wallet).2.accounts = w.accounts ∧ (w.updateSolana address wallet).2.nonces = w.nonces ∧
      (w.updateSolana address wallet).2.payments = w.payments := by
  rw [updateSolana]
  split <;> exact ⟨rfl, rfl, rfl⟩

theorem World.upsertUser_frame {address : String} {now : Nat} :
    (w.upsertUser address now).accounts = w.accounts ∧ (w.upsertUser address now).nonces = w.nonces ∧
      (w.upsertUser address now).payments = w.payments := by
  rw [upsertUser]
  split <;> exact ⟨rfl, rfl, rfl⟩

/-- What a command may do to one row. -/
theorem serve_payment (w : World) (command : Command) (choice : Choice) (hash : String) :
    (serve w command choice).2.payments hash = w.payments hash ∨
      (∃ addr chain token now, command = .insertPayment hash addr chain token now ∧ w.payments hash = none ∧
        (serve w command choice).2.payments hash = some ⟨addr, chain, token, 0, 0, .pending, now⟩) ∨
      command = .rejectPayment hash ∧
        (serve w command choice).2.payments hash = (w.payments hash).map ({ · with status := .rejected }) ∨
      (∃ amount points, command = .creditPayment hash amount points ∧ (serve w command choice).2.payments hash =
        (w.payments hash).map ({ · with amount := amount, points := points, status := .credited })) ∨
      command = .deletePending hash ∧ (serve w command choice).2.payments hash = none := by
  rcases serve_cases w command choice with same | ⟨_, after, same, writes⟩
  · exact .inl (congrArg (World.payments · hash) same)
  rw [same]
  cases writes with
  | inserted other addr chain token createdAt free =>
    by_cases own : hash = other
    · subst own
      exact .inr (.inl ⟨addr, chain, token, createdAt, rfl, free, World.setPayment_payments⟩)
    · exact .inl (World.setPayment_payments_of_ne own)
  | rejected other row found =>
    by_cases own : hash = other
    · subst own
      refine .inr (.inr (.inl ⟨rfl, ?_⟩))
      rw [World.setPayment_payments, found, Option.map_some]
    · exact .inl (World.setPayment_payments_of_ne own)
  | credited other amount points row found =>
    by_cases own : hash = other
    · subst own
      refine .inr (.inr (.inr (.inl ⟨amount, points, rfl, ?_⟩)))
      rw [World.setPayment_payments, found, Option.map_some]
    · exact .inl (World.setPayment_payments_of_ne own)
  | deleted other =>
    by_cases own : hash = other
    · subst own
      exact .inr (.inr (.inr (.inr ⟨rfl, World.setPayment_payments⟩)))
    · exact .inl (World.setPayment_payments_of_ne own)
  | linked address wallet => exact .inl (congrFun World.updateSolana_frame.2.2 hash)
  | recorded address lastLogin => exact .inl (congrFun World.upsertUser_frame.2.2 hash)
  | spent key => exact .inl rfl
  | started address => exact .inl rfl
  | paid address req => exact .inl rfl

theorem serve_row {command : Command} (row : w.payments hash ≠ none) (kept : command ≠ .deletePending hash) :
    (serve w command choice).2.payments hash ≠ none := by
  rcases serve_payment w command choice hash with same | ⟨_, _, _, _, _, _, same⟩ | ⟨_, same⟩ | ⟨_, _, _, same⟩ |
    ⟨deletes, _⟩
  · rwa [same]
  · rw [same]
    exact Option.some_ne_none _
  · rwa [same, ne_eq, Option.map_eq_none_iff]
  · rwa [same, ne_eq, Option.map_eq_none_iff]
  · exact (kept deletes).elim

theorem serve_insert {addr chain token : String} {now : Nat}
    (answered : (serve w (.insertPayment hash addr chain token now) choice).1 = .ok ()) :
    w.payments hash = none ∧ (serve w (.insertPayment hash addr chain token now) choice).2.payments hash ≠ none := by
  simp only [serve, Fault.apply, World.insertPayment] at answered ⊢
  cases fault : choice.fault with
  | refused => simp [fault] at answered
  | lost => simp [fault] at answered
  | none =>
    cases row : w.payments hash with
    | some row' => simp [fault, row] at answered
    | none => simp

/-- An account's storage changes by its own first touch and its own credits. -/
theorem serve_account (w : World) (command : Command) (choice : Choice) (addr : String) :
    (serve w command choice).2.accounts addr = w.accounts addr ∨
      command = .doInit addr ∧
        (serve w command choice).2.accounts addr = (Account.init (w.accounts addr) choice.now addr).2 ∨
      ∃ req, command = .doCredit addr req ∧ choice.fault ≠ .refused ∧
        (serve w command choice).2.accounts addr = (Account.credit (w.accounts addr) req).2 := by
  rcases serve_cases w command choice with same | ⟨reached, after, same, writes⟩
  · exact .inl (congrArg (World.accounts · addr) same)
  rw [same]
  cases writes with
  | linked address wallet => exact .inl (congrFun World.updateSolana_frame.1 addr)
  | recorded address lastLogin => exact .inl (congrFun World.upsertUser_frame.1 addr)
  | started other =>
    by_cases own : addr = other
    · subst own
      exact .inr (.inl ⟨rfl, Function.update_self ..⟩)
    · exact .inl (Function.update_of_ne own ..)
  | paid other req =>
    by_cases own : addr = other
    · subst own
      exact .inr (.inr ⟨req, rfl, reached, Function.update_self ..⟩)
    · exact .inl (Function.update_of_ne own ..)
  | _ => exact .inl rfl

/-- Only two statements write to the table of accounts. -/
theorem serve_users (w : World) (command : Command) (choice : Choice) :
    (serve w command choice).2.users = w.users ∨ choice.fault ≠ .refused ∧
      ((∃ address wallet, command = .updateSolana address wallet ∧
        (serve w command choice).2.users = (w.updateSolana address wallet).2.users) ∨
      ∃ address now, command = .upsertUser address now ∧
        (serve w command choice).2.users = (w.upsertUser address now).users) := by
  rcases serve_cases w command choice with same | ⟨reached, after, same, writes⟩
  · exact .inl (congrArg World.users same)
  rw [same]
  cases writes with
  | linked address wallet => exact .inr ⟨reached, .inl ⟨address, wallet, rfl, rfl⟩⟩
  | recorded address lastLogin => exact .inr ⟨reached, .inr ⟨address, lastLogin, rfl, rfl⟩⟩
  | _ => exact .inl rfl

/-- Only the gate itself writes to the store of nonces. -/
theorem serve_nonces {command : Command} {key : String} (other : command ≠ .deleteNonce key) :
    (serve w command choice).2.nonces key = w.nonces key := by
  rcases serve_cases w command choice with same | ⟨_, after, same, writes⟩
  · rw [same]
  rw [same]
  cases writes with
  | linked address wallet => rw [World.updateSolana_frame.2.1]
  | recorded address lastLogin => rw [World.upsertUser_frame.2.1]
  | spent used => exact Function.update_of_ne (fun own => other (congrArg Command.deleteNonce own.symm)) ..
  | _ => rfl

end LetsEmbed
