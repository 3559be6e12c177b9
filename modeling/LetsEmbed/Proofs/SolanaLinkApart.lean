import Mathlib.Data.List.Nodup
import LetsEmbed.Proofs.AuthRules
import LetsEmbed.Proofs.PaymentsEarned
import LetsEmbed.Proofs.ServicesSteps

/-! A Solana wallet is an account of its own or linked to one. Linking and signing
in each look for the other before they write, in statements of their own, so the
two stay apart while nothing gets between a request's look and its write. -/

namespace LetsEmbed

/-- Addresses are unique by the primary key; the other two are the rule. -/
structure Apart (users : List UserRow) : Prop where
  keyed : (users.map (·.address)).Nodup
  apart : ∀ row ∈ users, ∀ other ∈ users, row.address ≠ other.address → other.solanaAddress ≠ some row.address
  unshared : ∀ row ∈ users, ∀ other ∈ users, ∀ wallet, row.solanaAddress = some wallet →
    other.solanaAddress = some wallet → row.address = other.address

theorem addresses_map {users : List UserRow} {change : UserRow → UserRow}
    (kept : ∀ row, (change row).address = row.address) : (users.map change).map (·.address) = users.map (·.address) := by
  rw [List.map_map]
  exact List.map_congr_left fun row _ => kept row

theorem Apart.map {users : List UserRow} (separate : Apart users) {change : UserRow → UserRow}
    (address : ∀ row, (change row).address = row.address)
    (wallet : ∀ row, (change row).solanaAddress = row.solanaAddress) : Apart (users.map change) := by
  constructor
  · rw [addresses_map address]
    exact separate.keyed
  · intro row member other otherMember
    obtain ⟨old, older, rfl⟩ := List.mem_map.mp member
    obtain ⟨otherOld, otherOlder, rfl⟩ := List.mem_map.mp otherMember
    rw [address, address, wallet]
    exact separate.apart old older otherOld otherOlder
  · intro row member other otherMember
    obtain ⟨old, older, rfl⟩ := List.mem_map.mp member
    obtain ⟨otherOld, otherOlder, rfl⟩ := List.mem_map.mp otherMember
    rw [address, address, wallet, wallet]
    exact separate.unshared old older otherOld otherOlder

namespace World
variable {w : World} {address : String}

theorem user_isSome : (w.user address).isSome = true ↔ ∃ row ∈ w.users, row.address = address := by
  simp [user]

theorem user_eq_none : w.user address = none ↔ ∀ row ∈ w.users, row.address ≠ address := by
  simp [user]

theorem owner_eq_none {wallet : String} : w.owner wallet = none ↔ ∀ row ∈ w.users, row.solanaAddress ≠ some wallet := by
  simp [owner]

def relinked (address : String) (wallet : Option String) (row : UserRow) : UserRow :=
  if row.address = address then { row with solanaAddress := wallet } else row

@[simp] theorem relinked_address {wallet : Option String} {row : UserRow} :
    (relinked address wallet row).address = row.address := by
  rw [relinked]
  split <;> rfl

theorem relinked_wallet {wallet : Option String} {row : UserRow} :
    (relinked address wallet row).solanaAddress = if row.address = address then wallet else row.solanaAddress := by
  rw [relinked]
  split <;> rfl

theorem updateSolana_users (w : World) (address : String) (wallet : Option String) :
    (w.updateSolana address wallet).2.users = w.users ∨
      (wallet.isSome = true → (w.user address).isSome = true →
        ∀ row ∈ w.users, row.address ≠ address → row.solanaAddress ≠ wallet) ∧
      (w.updateSolana address wallet).2.users = w.users.map (relinked address wallet) := by
  rw [updateSolana]
  split
  · exact .inl rfl
  next allowed =>
    refine .inr ⟨?_, rfl⟩
    intro linking present row member different same
    apply allowed
    rw [Bool.and_eq_true, Bool.and_eq_true, List.any_eq_true]
    exact ⟨present, linking, row, member, by simp [different, same]⟩

/-- A link keeps the rule if its wallet is no account. -/
theorem updateSolana_apart {wallet : Option String} (separate : Apart w.users)
    (free : ∀ linked, wallet = some linked → w.user linked = none) : Apart (w.updateSolana address wallet).2.users := by
  rcases updateSolana_users w address wallet with same | ⟨untaken, same⟩
  · rwa [same]
  rw [same]
  constructor
  · rw [addresses_map fun row => relinked_address]
    exact separate.keyed
  · intro row member other otherMember different linked
    obtain ⟨old, older, rfl⟩ := List.mem_map.mp member
    obtain ⟨otherOld, otherOlder, rfl⟩ := List.mem_map.mp otherMember
    rw [relinked_address] at different linked
    rw [relinked_address] at different
    rw [relinked_wallet] at linked
    split at linked
    · exact user_eq_none.mp (free _ linked) old older rfl
    · exact separate.apart old older otherOld otherOlder different linked
  · intro row member other otherMember linked first second
    obtain ⟨old, older, rfl⟩ := List.mem_map.mp member
    obtain ⟨otherOld, otherOlder, rfl⟩ := List.mem_map.mp otherMember
    rw [relinked_wallet] at first second
    rw [relinked_address, relinked_address]
    split at first
    next mine =>
      split at second
      next also => exact mine.trans also.symm
      next foreign =>
        have present := user_isSome.mpr ⟨old, older, mine⟩
        exact (untaken (by simp [first]) present otherOld otherOlder foreign (second.trans first.symm)).elim
    next foreign =>
      split at second
      next mine =>
        have present := user_isSome.mpr ⟨otherOld, otherOlder, mine⟩
        exact (untaken (by simp [second]) present old older foreign (first.trans second.symm)).elim
      next => exact separate.unshared old older otherOld otherOlder linked first second

/-- A sign-in adds a row without a wallet, or touches its own. -/
theorem upsertUser_users (w : World) (address : String) (now : Nat) :
    (∃ change : UserRow → UserRow, (∀ row, (change row).address = row.address) ∧
      (∀ row, (change row).solanaAddress = row.solanaAddress) ∧
      (w.upsertUser address now).users = w.users.map change) ∨
    w.user address = none ∧ (w.upsertUser address now).users = w.users ++ [⟨address, now, now, false, none⟩] := by
  rw [upsertUser]
  split
  · refine .inl ⟨_, fun row => ?_, fun row => ?_, rfl⟩
    · split <;> rfl
    · split <;> rfl
  next absent =>
    rw [Bool.not_eq_true, Option.isSome_eq_false_iff, Option.isNone_iff_eq_none] at absent
    exact .inr ⟨absent, rfl⟩

/-- A sign-in keeps the rule if its address is nobody's linked wallet. -/
theorem upsertUser_apart {now : Nat} (separate : Apart w.users) (free : w.owner address = none) :
    Apart (w.upsertUser address now).users := by
  rcases upsertUser_users w address now with ⟨change, kept, wallet, same⟩ | ⟨absent, same⟩
  · rw [same]
    exact separate.map kept wallet
  rw [same]
  have new := user_eq_none.mp absent
  have unlinked := owner_eq_none.mp free
  constructor
  · rw [List.map_append]
    apply List.Nodup.append separate.keyed (List.nodup_singleton _)
    intro taken member other
    obtain ⟨row, older, rfl⟩ := List.mem_map.mp member
    exact new row older (List.mem_singleton.mp other)
  · intro row member other otherMember different linked
    rcases List.mem_append.mp otherMember with otherOlder | added
    · rcases List.mem_append.mp member with older | added
      · exact separate.apart row older other otherOlder different linked
      · rw [List.mem_singleton.mp added] at linked
        exact unlinked other otherOlder linked
    · rw [List.mem_singleton.mp added] at linked
      cases linked
  · intro row member other otherMember wallet first second
    rcases List.mem_append.mp member with older | added
    · rcases List.mem_append.mp otherMember with otherOlder | added
      · exact separate.unshared row older other otherOlder wallet first second
      · rw [List.mem_singleton.mp added] at second
        cases second
    · rw [List.mem_singleton.mp added] at first
      cases first

theorem updateSolana_forall {property : UserRow → Prop} {wallet : Option String} (all : ∀ row ∈ w.users, property row)
    (kept : ∀ row, property row → property (relinked address wallet row)) :
    ∀ row ∈ (w.updateSolana address wallet).2.users, property row := by
  rcases updateSolana_users w address wallet with same | ⟨_, same⟩
  · rwa [same]
  · rw [same]
    intro row member
    obtain ⟨old, older, rfl⟩ := List.mem_map.mp member
    exact kept old (all old older)

theorem upsertUser_forall {property : UserRow → Prop} {now : Nat} (all : ∀ row ∈ w.users, property row)
    (kept : ∀ row later : UserRow, later.address = row.address → later.solanaAddress = row.solanaAddress → property row →
      property later)
    (new : property ⟨address, now, now, false, none⟩) : ∀ row ∈ (w.upsertUser address now).users, property row := by
  rcases upsertUser_users w address now with ⟨change, named, wallet, same⟩ | ⟨_, same⟩
  · rw [same]
    intro row member
    obtain ⟨old, older, rfl⟩ := List.mem_map.mp member
    exact kept old _ (named old) (wallet old) (all old older)
  · rw [same]
    intro row member
    rcases List.mem_append.mp member with older | added
    · exact all row older
    · rw [List.mem_singleton.mp added]
      exact new

/-- Rows appear by signing in, and never vanish. -/
theorem updateSolana_user {other : String} {wallet : Option String} (absent : w.user other = none) :
    (w.updateSolana address wallet).2.user other = none := by
  rw [user_eq_none] at absent ⊢
  apply updateSolana_forall absent
  intro row kept
  rwa [relinked_address]

theorem upsertUser_user {other : String} {now : Nat} (absent : w.user other = none) (different : address ≠ other) :
    (w.upsertUser address now).user other = none := by
  rw [user_eq_none] at absent ⊢
  apply upsertUser_forall absent _ different
  intro row later named _ kept
  rwa [named]

theorem updateSolana_owner {linked : String} {wallet : Option String} (free : w.owner linked = none)
    (different : wallet ≠ some linked) : (w.updateSolana address wallet).2.owner linked = none := by
  rw [owner_eq_none] at free ⊢
  apply updateSolana_forall free
  intro row kept
  rw [relinked_wallet]
  split
  · exact different
  · exact kept

theorem upsertUser_owner {linked : String} {now : Nat} (free : w.owner linked = none) :
    (w.upsertUser address now).owner linked = none := by
  rw [owner_eq_none] at free ⊢
  apply upsertUser_forall free _ (by simp)
  intro row later _ wallet kept
  rwa [wallet]

end World
theorem World.user_congr {w other : World} {address : String} (same : other.users = w.users) :
    other.user address = w.user address := by
  rw [user, same, user]

theorem World.owner_congr {w other : World} {wallet : String} (same : other.users = w.users) :
    other.owner wallet = w.owner wallet := by
  rw [owner, same, owner]

namespace Worker
open Auth Payments SolanaLink Systems

abbrev Past := Pool.Past Command Command.Reply (Except Answer Answer) World Request Choice

/-- The look a write rests on. -/
def checks : Command → Command → Bool
  | .updateSolana _ (some wallet), .selectUser other => other = wallet
  | .upsertUser wallet _, .selectOwner other => other = wallet
  | _, _ => false

/-- What makes that look out of date. -/
def belies : Command → Command → Bool
  | .updateSolana _ (some wallet), .upsertUser other _ => other = wallet
  | .upsertUser wallet _, .updateSolana _ (some other) => other = wallet
  | _, _ => false

def raced (i : Nat) (write : Command) (past : Past) : Bool :=
  (Pool.since (checks write) i past).any fun event =>
    event.output.any fun served => served.choice.fault ≠ .refused && belies write served.command

/-- No write takes effect once another request has belied the look it rests on. -/
def unraced (st : AppState) :
    Guard (Pool Command Command.Reply (Except Answer Answer) World) (Turn Request Choice) (Option Served) :=
  fun past pool turn =>
    match turn with
    | .spawn _ => True
    | .advance i choice => (Pool.step serve (launch st) pool (.advance i choice)).1.all
        fun served => served.choice.fault = .refused || !raced i served.command past

instance (st past pool) : (turn : Turn Request Choice) → Decidable (unraced st past pool turn)
  | .spawn _ => inferInstanceAs (Decidable True)
  | .advance .. => inferInstanceAs (Decidable (_ = true))

def Looked (past : List (Exchange Command Command.Reply)) : Command → Prop
  | .updateSolana addr (some wallet) =>
    past.find? (checks (.updateSolana addr (some wallet)) ·.1) = some ⟨.selectUser wallet, .ok none⟩
  | .upsertUser wallet now => past.find? (checks (.upsertUser wallet now) ·.1) = some ⟨.selectOwner wallet, .ok none⟩
  | _ => True

section Discipline
variable {st : AppState}

theorem launch_looked (request : Request) :
    (launch st request).wp (Program.recording Looked) (fun _ _ => True) [] := by
  have handled : (handle st request).wp (Program.recording Looked) (fun _ _ => True) (fun _ _ => True) [] := by
    cases request with
    | topup session req =>
      apply topup_free
      intro past command spent
      cases command with
      | updateSolana addr wallet => cases spent
      | upsertUser addr now => cases spent
      | _ => trivial
    | link session req =>
      apply link_rule (fun _ _ => ⟨trivial, trivial⟩) fun _ => ⟨trivial, trivial⟩
      · intro past owner addr _
        simp [Looked, checks]
      · exact fun _ => trivial
    | unlink session => exact unlink_rule (fun _ _ => trivial) fun _ => trivial
    | verifySolana req =>
      apply verifySolana_rule (fun _ _ => ⟨trivial, trivial⟩) (fun _ => ⟨trivial, trivial, trivial⟩) fun _ => trivial
      · intro past now
        simp [Looked, checks]
      · exact fun _ _ => trivial
  exact Program.wp_mono (Handler.run_of_wp handled) fun _ _ _ => trivial

end Discipline

section Runs
variable {st : AppState} {start : World} {past : Past} {pool : Pool Command Command.Reply (Except Answer Answer) World}
  {guard : Guard (Pool Command Command.Reply (Except Answer Answer) World) (Turn Request Choice) (Option Served)}

/-- What an event did to the accounts. -/
theorem event_users {event : Event _ _ _} (made : event = (machine st start).event event.before event.input) :
    event.after.world.users = event.before.world.users ∨ ∃ served, event.output = some served ∧
      served.choice.fault ≠ .refused ∧
      ((∃ address wallet, served.command = .updateSolana address wallet ∧
        event.after.world.users = (event.before.world.updateSolana address wallet).2.users) ∨
      ∃ address now, served.command = .upsertUser address now ∧
        event.after.world.users = (event.before.world.upsertUser address now).users) := by
  rw [made]
  cases output : (Pool.step serve (launch st) event.before event.input).1 with
  | none => exact .inl (congrArg World.users (Pool.step_unserved output))
  | some served =>
    obtain ⟨world, _, after, _⟩ := Pool.step_served output
    rcases serve_users served.world served.command served.choice with same | ⟨reached, effect⟩
    · exact .inl ((congrArg World.users after).trans (same.trans (congrArg World.users world)))
    · refine .inr ⟨served, output, reached, ?_⟩
      rw [world] at effect
      rw [world] at after
      rcases effect with ⟨address, wallet, asked, same⟩ | ⟨address, now, asked, same⟩
      · exact .inl ⟨address, wallet, asked, (congrArg World.users after).trans same⟩
      · exact .inr ⟨address, now, asked, (congrArg World.users after).trans same⟩

theorem calm_of_unraced {i : Nat} {choice : Choice} {served : Served} (fits : unraced st past pool (.advance i choice))
    (output : (Pool.step serve (launch st) pool (.advance i choice)).1 = some served)
    (reached : served.choice.fault ≠ .refused) : raced i served.command past = false := by
  rw [unraced, output, Option.all_some, decide_eq_false reached, Bool.false_or, Bool.not_eq_true'] at fits
  exact fits

/-- What a request found missing is still missing at its write. -/
theorem looked_since (missing : World → Prop) (run : (machine st start).Run guard ⟨start, []⟩ past pool) {i : Nat}
    {write look : Command} {reply : look.Reply} (calm : raced i write past = false)
    (found : (Pool.own i past).find? (checks write ·.1) = some ⟨look, reply⟩)
    (seen : ∀ w choice, (serve w look choice).1 = reply → missing w ∧ (serve w look choice).2 = w)
    (kept : ∀ event, event = (machine st start).event event.before event.input →
      (∀ served, event.output = some served → served.choice.fault ≠ .refused → belies write served.command = false) →
      missing event.before.world → missing event.after.world) : missing pool.world := by
  obtain ⟨event, early, served, split, turn, asked⟩ := Pool.own_find found
  obtain ⟨rfl, answered⟩ := Sigma.mk.inj asked
  rw [split] at run
  have output := Pool.output_of_servedBy turn
  have made := run.event_of_mem (List.mem_append_right _ List.mem_cons_self)
  rw [made] at output
  obtain ⟨world, reply, after, _⟩ := Pool.step_served output
  obtain ⟨absent, same⟩ := seen served.world served.choice (reply.symm.trans (eq_of_heq answered))
  apply run.since fun pool => missing pool.world
  · rw [made]
    change missing (Pool.step serve (launch st) event.before event.input).2.world
    rwa [after, same]
  · intro later next earlier between
    have member : next ∈ Pool.since (checks write) i past := by
      rw [between]
      exact List.mem_append_right _ List.mem_cons_self
    apply kept next (run.event_of_mem (List.mem_append_left _ member))
    intro older output reached
    have quiet := List.any_eq_false.mp calm next member
    rw [output, Option.any_some, decide_eq_true reached, Bool.true_and, Bool.not_eq_true] at quiet
    exact quiet

theorem unclaimed_since (run : (machine st start).Run guard ⟨start, []⟩ past pool) {i : Nat} {address linked : String}
    (calm : raced i (.updateSolana address (some linked)) past = false)
    (looked : Looked (Pool.own i past) (.updateSolana address (some linked))) : pool.world.user linked = none := by
  apply looked_since (World.user · linked = none) run calm looked
  · intro w choice answered
    obtain ⟨found, same⟩ := Fault.apply_read answered
    exact ⟨Option.map_eq_none_iff.mp found, same⟩
  · intro event made calm absent
    rcases event_users made with same | ⟨served, output, reached, effect⟩
    · rwa [World.user_congr same]
    · have harmless := calm served output reached
      rcases effect with ⟨other, wallet, asked, same⟩ | ⟨other, now, asked, same⟩
      · rw [World.user_congr same]
        exact World.updateSolana_user absent
      · rw [World.user_congr same]
        rw [asked, belies, decide_eq_false_iff_not] at harmless
        exact World.upsertUser_user absent harmless

theorem unlinked_since (run : (machine st start).Run guard ⟨start, []⟩ past pool) {i now : Nat} {address : String}
    (calm : raced i (.upsertUser address now) past = false)
    (looked : Looked (Pool.own i past) (.upsertUser address now)) : pool.world.owner address = none := by
  apply looked_since (World.owner · address = none) run calm looked
  · intro w choice answered
    exact Fault.apply_read answered
  · intro event made calm free
    rcases event_users made with same | ⟨served, output, reached, effect⟩
    · rwa [World.owner_congr same]
    · have harmless := calm served output reached
      rcases effect with ⟨other, wallet, asked, same⟩ | ⟨other, later, asked, same⟩
      · rw [World.owner_congr same]
        apply World.updateSolana_owner free
        rintro rfl
        rw [asked, belies, decide_eq_false_iff_not] at harmless
        exact harmless rfl
      · rw [World.owner_congr same]
        exact World.upsertUser_owner free

/-- If nothing gets between what a request looks up and what it writes, a string
is never both an account and another account's linked wallet, and no wallet is
linked twice. -/
theorem wallets_apart (st : AppState) (start : World) (separate : Apart start.users) {past : Past}
    {pool : Pool Command Command.Reply (Except Answer Answer) World}
    (run : (machine st start).Run (unraced st) ⟨start, []⟩ past pool) : Apart pool.world.users := by
  apply run.invariant fun _ pool => Apart pool.world.users
  · exact separate
  · intro past pool turn running calm apart
    rcases @event_users st start ((machine st start).event pool turn) rfl with
      same | ⟨served, output, reached, effect⟩
    · exact same ▸ apart
    · obtain ⟨_, _, _, i, next, rfl, thread⟩ := Pool.step_served output
      have looked := ((Pool.disciplined running launch_looked).typed i _ thread).1
      have quiet := calm_of_unraced calm output reached
      rcases effect with ⟨address, wallet, asked, same⟩ | ⟨address, now, asked, same⟩
      · rw [← Machine.event_after, same]
        apply World.updateSolana_apart apart
        rintro linked rfl
        rw [asked] at looked quiet
        exact unclaimed_since running quiet looked
      · rw [← Machine.event_after, same]
        apply World.upsertUser_apart apart
        rw [asked] at looked quiet
        exact unlinked_since running quiet looked

end Runs

section Example

def contested : String := "6RMCMKhdsAehCzoHEb3gg1YLbCCKuGm9hCo96xYxx4Fx"

/-- A link and a sign-in of the same wallet, each signed over a nonce of its own. -/
def linking : Request := .link (some (account 'b')) ⟨contested,
  "61P1bSbYfc47H5dasjgFSHdqsAkWxqFJxJCTZQUwjhZBR1SXtqAKQYcvECb8KebpLRh2U8AFPEe4LfPtXGJFeAb9",
  "6d6a4c1a8b7f4e0fa1b2c3d4e5f60718"⟩

def signingIn : Request := .verifySolana ⟨contested,
  "3UWrmtakSzeMydFGanmVVtXU7wu2qLPd7RdpKP5jkeKQiwERJU7iVcsbdswf3wRzanf6D46Z6f2YpB99wn7Tm1RL",
  "0f3c9be2d47a4d11b6c8a0e91d25f734"⟩

def unlinked : World :=
  ⟨fun _ => none, [⟨account 'b', 0, 0, false, none⟩], fun key => key = "nonce:6d6a4c1a8b7f4e0fa1b2c3d4e5f60718" ||
    key = "nonce:0f3c9be2d47a4d11b6c8a0e91d25f734", fun _ => {}⟩

theorem unlinked_apart : Apart unlinked.users := by
  have only {row : UserRow} (member : row ∈ unlinked.users) : row = ⟨account 'b', 0, 0, false, none⟩ := by
    simpa [unlinked] using member
  constructor
  · exact List.nodup_singleton _
  · intro row _ other otherMember _
    rw [only otherMember]
    exact (Option.some_ne_none _).symm
  · intro row member other otherMember _ _ _
    rw [only member, only otherMember]

def runs {Q : Type} (thread count : Nat) : List (Turn Q Choice) :=
  List.replicate count (.advance thread ⟨.none, 0, .failed⟩)

theorem wallets_apart_linked :
    let turns := [.spawn linking] ++ runs 0 5 ++ [.spawn signingIn] ++ runs 1 4
    let run := (machine sampleState unlinked).play ([], ⟨unlinked, []⟩) turns
    run.2.world.users = [⟨account 'b', 0, 0, false, some contested⟩] ∧ Apart run.2.world.users := by
  intro turns run
  have observed : (machine sampleState unlinked).Permitted (unraced sampleState) ([], ⟨unlinked, []⟩) turns ∧
      run.2.world.users = [⟨account 'b', 0, 0, false, some contested⟩] := by
    decide +kernel
  obtain ⟨permitted, linked⟩ := observed
  exact ⟨linked, wallets_apart sampleState unlinked unlinked_apart (Machine.Run.play .start turns permitted)⟩

/-- The wallet signs in between the link's look at the accounts and its write,
having looked for a link before there was one. -/
theorem wallet_linked_and_signed_in :
    let turns := [.spawn linking, .spawn signingIn] ++ runs 0 3 ++ runs 1 5 ++ runs 0 2
    let run := (machine sampleState unlinked).play ([], ⟨unlinked, []⟩) turns
    Apart unlinked.users ∧ (machine sampleState unlinked).Run (fun _ _ _ => True) ⟨unlinked, []⟩ run.1 run.2 ∧
      ∃ row ∈ run.2.world.users, ∃ other ∈ run.2.world.users, row.address ≠ other.address ∧
        other.solanaAddress = some row.address := by
  intro turns run
  refine ⟨unlinked_apart, Machine.Run.play .start turns (Machine.permitted_always (fun _ _ _ => trivial) _ turns), ?_⟩
  decide +kernel

end Example

end Worker
end LetsEmbed
