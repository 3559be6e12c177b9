import LetsEmbed.Proofs.PlatformMetering

/-! Bans end to end. A form that was answered with the redirect has reached the object and
the mirror, so the account is shut out from the gateway and from signing in alike, until
another form lifts the ban. -/

namespace LetsEmbed.Platform
open Account Systems

variable {w : World} {command : Command} {choice : Choice} {address : String} {banned : Bool}

/-- Part of lifting a ban. -/
def lifts (address : String) : Command → Prop
  | .doBan target banned | .updateBanned target banned => target = address ∧ banned = false
  | _ => False

instance (address : String) (command : Command) : Decidable (lifts address command) :=
  match command with
  | .doBan .. | .updateBanned .. => inferInstanceAs (Decidable (_ ∧ _))
  | .user _ | .gateway _ | .doStatus _ | .doPlan .. | .doAlarm _ | .updatePlan .. => .isFalse id

/-! ## The object's side -/

theorem reaches_ban (reached : reaches address command choice = some (.ban banned)) : command = .doBan address banned := by
  rw [reaches, Option.ite_none_left_eq_some] at reached
  obtain ⟨⟨target, op⟩, known, same⟩ := Option.bind_eq_some_iff.mp reached.2
  rw [Option.ite_none_right_eq_some, Option.some.injEq] at same
  obtain ⟨rfl, rfl⟩ := same
  cases command with
  | doBan other value =>
    cases known
    rfl
  | doPlan other change => cases change <;> cases known
  | user command => cases command <;> cases known
  | gateway command => cases command <;> cases known
  | _ => cases known

/-- Only a form for the account itself lifts its ban. -/
theorem serve_banned (suspended : (w.services.accounts address).isBanned = true) (kept : ¬ lifts address command) :
    ((serve w command choice).2.services.accounts address).isBanned = true := by
  rw [serve_accounts]
  cases op : reaches address command choice with
  | none => exact suspended
  | some op' =>
    dsimp only
    by_cases bans : ∃ banned, op' = .ban banned
    · obtain ⟨banned, rfl⟩ := bans
      obtain rfl := reaches_ban op
      cases banned with
      | true => rfl
      | false => exact (kept ⟨rfl, rfl⟩).elim
    · rw [step_banned fun banned same => bans ⟨banned, same⟩]
      exact suspended

/-! ## The mirror's side -/

theorem call_users {α : Type} (fault : Fault) (target : String) (result : Account.Reply × Storage)
    (answer : Account.Reply → Option α) : (call fault w target result answer).2.services.users = w.services.users := by
  cases fault <;> rfl

/-- What a command makes of the rows of `users`. -/
theorem serve_rows (w : World) (command : Command) (choice : Choice) :
    (serve w command choice).2.services.users = w.services.users ∨
      (∃ change : UserRow → UserRow, (serve w command choice).2.services.users = w.services.users.map change ∧
        ∀ row, (change row).address = row.address ∧ (change row).banned = row.banned) ∨
      (∃ address now, w.services.user address = none ∧
        (serve w command choice).2.services.users = w.services.users ++ [⟨address, now, now, false, none⟩]) ∨
      ∃ address banned, command = .updateBanned address banned ∧
        (serve w command choice).2.services.users = (w.updateBanned address banned).services.users := by
  have written (fault : Fault) (late : World) : (write fault w late).2.services.users = w.services.users ∨
      (write fault w late).2.services.users = late.services.users := by
    cases fault with
    | none | lost => exact .inr rfl
    | refused => exact .inl rfl
  cases command with
  | gateway command =>
    cases command with
    | charge sub req => exact .inl (call_users ..)
    | now | forwardUser | send => exact .inl rfl
  | doStatus | doBan | doAlarm | doPlan => exact .inl (call_users ..)
  | updatePlan target plan =>
    have same : (w.updatePlan target plan).services.users = w.services.users := by
      rw [World.updatePlan]
      split <;> rfl
    exact .inl ((written choice.fault (w.updatePlan target plan)).elim id fun late => late.trans same)
  | updateBanned target banned =>
    rcases written choice.fault (w.updateBanned target banned) with same | late
    · exact .inl same
    · exact .inr (.inr (.inr ⟨target, banned, rfl, late⟩))
  | user command =>
    rcases serve_users w.services command ⟨choice.fault, choice.now, choice.fetched⟩ with same |
      ⟨_, ⟨target, wallet, rfl, same⟩ | ⟨target, now, rfl, same⟩⟩
    · exact .inl same
    · rw [World.updateSolana] at same
      split at same
      next => exact .inl same
      next =>
        refine .inr (.inl ⟨_, same, fun row => ?_⟩)
        split <;> exact ⟨rfl, rfl⟩
    · rw [World.upsertUser] at same
      split at same
      next =>
        refine .inr (.inl ⟨_, same, fun row => ?_⟩)
        split <;> exact ⟨rfl, rfl⟩
      next missing => exact .inr (.inr (.inl ⟨target, now, Option.not_isSome_iff_eq_none.mp missing, same⟩))

def Listed (w : World) (address : String) : Prop := ∃ row ∈ w.services.users, row.address = address

def Mirrored (w : World) (address : String) : Prop := ∀ row ∈ w.services.users, row.address = address → row.banned = true

theorem serve_listed (listed : Listed w address) : Listed (serve w command choice).2 address := by
  obtain ⟨row, member, named⟩ := listed
  rcases serve_rows w command choice with same | ⟨change, same, keeps⟩ | ⟨other, now, _, same⟩ | ⟨target, banned, _, same⟩
  · exact ⟨row, same ▸ member, named⟩
  · exact ⟨change row, same ▸ List.mem_map_of_mem member, (keeps row).1.trans named⟩
  · exact ⟨row, same ▸ List.mem_append_left _ member, named⟩
  · refine ⟨if row.address = target then { row with banned } else row, ?_, ?_⟩
    · rw [same]
      exact List.mem_map_of_mem (f := fun row : UserRow => if row.address = target then { row with banned } else row) member
    · split <;> exact named

theorem not_listed (missing : w.services.user address = none) : ¬ Listed w address := by
  rintro ⟨row, member, named⟩
  exact List.find?_eq_none.mp missing row member (decide_eq_true named)

theorem serve_mirrored (listed : Listed w address) (mirrored : Mirrored w address) (kept : ¬ lifts address command) :
    Mirrored (serve w command choice).2 address := by
  intro row member named
  rcases serve_rows w command choice with same | ⟨change, same, keeps⟩ | ⟨other, now, missing, same⟩ | ⟨target, banned, rfl, same⟩
  · exact mirrored row (same ▸ member) named
  · rw [same] at member
    obtain ⟨old, there, rfl⟩ := List.mem_map.mp member
    rw [(keeps old).2]
    exact mirrored old there ((keeps old).1.symm.trans named)
  · rw [same] at member
    rcases List.mem_append.mp member with old | new
    · exact mirrored row old named
    · rw [List.mem_singleton.mp new] at named
      subst named
      exact (not_listed missing listed).elim
  · rw [same] at member
    obtain ⟨old, there, rfl⟩ := List.mem_map.mp member
    split
    next own =>
      rw [if_pos own] at named
      cases banned with
      | true => rfl
      | false => exact (kept ⟨own.symm.trans named, rfl⟩).elim
    next foreign =>
      rw [if_neg foreign] at named
      exact mirrored old there named

/-! ## Both sides over a run -/

/-- Shut out on both sides. -/
structure Locked (w : World) (address : String) : Prop where
  suspended : (w.services.accounts address).isBanned = true
  listed : Listed w address
  mirrored : Mirrored w address

theorem Locked.kept (locked : Locked w address) (kept : ¬ lifts address command) : Locked (serve w command choice).2 address :=
  ⟨serve_banned locked.suspended kept, serve_listed locked.listed, serve_mirrored locked.listed locked.mirrored kept⟩

theorem user_named {row : UserRow} (there : w.services.user address = some row) : row.address = address := by
  rw [LetsEmbed.World.user] at there
  have named := List.find?_some there
  exact of_decide_eq_true named

theorem listed_of_found {found : String}
    (read : (serve w (.user (.selectUser address)) choice).1 = .ok (some found)) : Listed w address := by
  obtain ⟨row, there, _⟩ := Option.map_eq_some_iff.mp (Fault.apply_read read).1
  exact ⟨row, List.mem_of_find?_eq_some there, user_named there⟩

theorem banned_of_answered {reply : Account.Reply} (answered : (serve w (.doBan address true) choice).1 = some reply) :
    ((serve w (.doBan address true) choice).2.services.accounts address).isBanned = true := by
  obtain ⟨reached, _⟩ := call_answered answered
  have here : reaches address (.doBan address true) choice = some (.ban true) := by
    rw [reaches, if_neg (by rw [reached]; decide)]
    exact if_pos rfl
  rw [serve_accounts, here]
  rfl

theorem mirrored_of_written (written : (serve w (.updateBanned address true) choice).1 = .ok ()) :
    Mirrored (serve w (.updateBanned address true) choice).2 address := by
  have late : (serve w (.updateBanned address true) choice).2 = w.updateBanned address true := by
    change (write choice.fault w _).1 = .ok () at written
    change (write choice.fault w _).2 = _
    cases fault : choice.fault with
    | none => rfl
    | refused | lost =>
      rw [fault] at written
      cases written
  intro row member named
  rw [late] at member
  obtain ⟨old, there, rfl⟩ := List.mem_map.mp member
  split
  next => rfl
  next foreign =>
    rw [if_neg foreign] at named
    exact (foreign named).elim

theorem Locked.read {found : Option Bool} (locked : Locked w address)
    (read : (serve w (.user (.selectBanned address)) choice).1 = .ok found) : found = some true := by
  obtain ⟨row, member, named⟩ := locked.listed
  have there : (w.services.user address).map (·.banned) = found := (Fault.apply_read read).1
  cases user : w.services.user address with
  | none => exact (not_listed user ⟨row, member, named⟩).elim
  | some first =>
    rw [user] at there
    rw [← there]
    exact congrArg some (locked.mirrored first (List.mem_of_find?_eq_some user) (user_named user))

variable {gs : Gateway.State} {st : Auth.SiweState} {start : World}
  {past early late : Pool.Past Command Command.Reply Outcome World Request Choice}
  {pool middle : Pool Command Command.Reply Outcome World}
  {guard : Systems.Guard (Pool Command Command.Reply Outcome World) (Turn Request Choice)
    (Option (Systems.Served Command Command.Reply World Choice))}
  {i : Nat} {approver : Option String} {form : BanForm}

/-- No other form has lifted the ban since this thread set it. -/
def Unlifted (i : Nat) (address : String) (past : Pool.Past Command Command.Reply Outcome World Request Choice) : Prop :=
  ∀ later event earlier served, past = later ++ event :: earlier → Pool.servedBy i event = some served →
    served.command = .doBan address true → ∀ other ∈ Pool.log later, ¬ lifts address other.command

theorem locked_of_answered (run : (machine gs st start).Run guard ⟨start, []⟩ past pool)
    (known : (Pool.requests past)[i]? = some (.ban approver form)) (bans : form.bans = true) {answer : Answer}
    (through : pool.threads[i]? = some (.pure (.ok answer))) (unlifted : Unlifted i form.address past) :
    Locked pool.world form.address := by
  have written := Pool.answered_of_run run (launch_rule gs st) known through
  rw [Ends, bans] at written
  obtain ⟨late₂, event₂, early₂, served₂, split₂, turn₂, exchange₂⟩ := Pool.event_of_own written
  subst split₂
  obtain ⟨request, _, asked⟩ := Pool.asked_of_run run (launch_rule gs st) turn₂
  obtain ⟨same₂, answered₂, world₂⟩ := Pool.served_world run turn₂
  obtain ⟨w₂, command₂, choice₂, reply₂⟩ := served₂
  cases exchange₂
  obtain ⟨_, _, _, _, _, reply, _, enforced⟩ := asked
  obtain ⟨late₁, event₁, early₁, served₁, split₁, turn₁, exchange₁⟩ := Pool.event_of_own enforced
  subst split₁
  have whole₁ : late₂ ++ event₂ :: (late₁ ++ event₁ :: early₁) = (late₂ ++ event₂ :: late₁) ++ event₁ :: early₁ := by simp
  have run₁ := run
  rw [whole₁] at run₁ unlifted
  obtain ⟨request₁, _, asked₁⟩ := Pool.asked_of_run run₁ (launch_rule gs st) turn₁
  obtain ⟨_, answered₁, world₁⟩ := Pool.served_world run₁ turn₁
  have since := unlifted _ _ _ served₁ rfl turn₁ (congrArg (·.1) exchange₁)
  obtain ⟨w₁, command₁, choice₁, reply₁⟩ := served₁
  cases exchange₁
  obtain ⟨_, _, _, _, _, found, looked⟩ := asked₁
  obtain ⟨late₀, event₀, early₀, served₀, split₀, turn₀, exchange₀⟩ := Pool.event_of_own looked
  subst split₀
  have run₀ := run
  have whole₀ : late₂ ++ event₂ :: (late₁ ++ event₁ :: (late₀ ++ event₀ :: early₀)) =
      (late₂ ++ event₂ :: (late₁ ++ event₁ :: late₀)) ++ event₀ :: early₀ := by simp
  rw [whole₀] at run₀
  obtain ⟨_, answered₀, world₀⟩ := Pool.served_world run₀ turn₀
  obtain ⟨w₀, command₀, choice₀, reply₀⟩ := served₀
  cases exchange₀
  have listed : Listed w₂ form.address := by
    have before := run.cut.1
    have whole : late₁ ++ event₁ :: (late₀ ++ event₀ :: early₀) = (late₁ ++ event₁ :: late₀) ++ event₀ :: early₀ := by simp
    rw [whole] at before
    obtain rfl : w₂ = event₂.before.world := same₂
    apply Pool.kept_since (Listed · form.address) (fun _ => True) before
    · rw [world₀]
      exact serve_listed (listed_of_found answered₀.symm)
    · exact fun w command choice listed _ => serve_listed listed
    · exact fun _ _ => trivial
  have later : ∀ other ∈ Pool.log late₂, ¬ lifts form.address other.command := by
    intro other member
    rw [Pool.log_append] at since
    exact since other (List.mem_append_left _ member)
  have shut : Listed pool.world form.address ∧ Mirrored pool.world form.address := by
    apply Pool.kept_since (fun w => Listed w form.address ∧ Mirrored w form.address) (fun command => ¬ lifts form.address command) run
    · rw [world₂]
      exact ⟨serve_listed listed, mirrored_of_written answered₂.symm⟩
    · exact fun w command choice both kept => ⟨serve_listed both.1, serve_mirrored both.1 both.2 kept⟩
    · exact later
  refine ⟨?_, shut.1, shut.2⟩
  apply Pool.kept_since (fun w => (w.services.accounts form.address).isBanned = true) (fun command => ¬ lifts form.address command) run₁
  · rw [world₁]
    exact banned_of_answered answered₁.symm
  · exact fun w command choice suspended kept => serve_banned suspended kept
  · exact since

theorem locked_along (locked : Locked middle.world address) (run : (machine gs st start).Run guard middle late pool)
    (since : ∀ other ∈ Pool.log late, ¬ lifts address other.command) : Locked pool.world address :=
  Pool.kept_along (Locked · address) (fun command => ¬ lifts address command) run locked
    (fun _ _ _ locked kept => locked.kept kept) since

/-- Every session the request might be taken for is this account's. -/
def SessionsOf (gs : Gateway.State) (r : Gateway.Request) (address : String) : Prop :=
  ∀ token now claims, r.cookies Gateway.sessionCookie = some token → gs.jwtVerify token now = some claims → claims.sub = address

def SignsIn : Request → Prop
  | .worker (.verify _) | .worker (.other (.verifySolana _)) => True
  | _ => False

/-- Once a ban has been answered, and until another form lifts it, what comes after it is
shut out: no metered request on the account's sessions is forwarded, and no login ends in
a session for the account. -/
theorem ban_locks_out (first : (machine gs st start).Run guard ⟨start, []⟩ early middle)
    (known : (Pool.requests early)[i]? = some (.ban approver form)) (bans : form.bans = true) {answer : Answer}
    (through : middle.threads[i]? = some (.pure (.ok answer))) (unlifted : Unlifted i form.address early)
    (rest : (machine gs st start).Run (fun more => guard (more ++ early)) middle late pool)
    (since : ∀ other ∈ Pool.log late, ¬ lifts form.address other.command) {j : Nat} (new : middle.threads.length ≤ j)
    {request : Request} (asked : (Pool.requests (late ++ early))[j]? = some request) :
    (∀ r, request = .gateway r → SessionsOf gs r form.address → Gateway.chargeFor gs r ≠ none →
      ∀ out sent, (⟨.gateway (.send out), sent⟩ : Exchange Command Command.Reply) ∉ Pool.own j late) ∧
    (SignsIn request → ∀ code issued expires,
      pool.threads[j]? ≠ some (.pure (.ok (.user (.response code (.session form.address issued expires)))))) := by
  have locked := locked_of_answered first known bans through unlifted
  have run := first.append rest
  have unborn : Pool.own j early = [] := (Pool.launched_of_run first (launch_rule gs st)).unborn j new
  have met {exchange : Exchange Command Command.Reply} (member : exchange ∈ Pool.own j late) :
      ∃ w choice, Locked w form.address ∧ exchange.2 = (serve w exchange.1 choice).1 := by
    obtain ⟨later, event, earlier, served, rfl, turn, rfl⟩ := Pool.event_of_own member
    rw [List.append_assoc, List.cons_append] at run
    obtain ⟨same, answered, _⟩ := Pool.served_world run turn
    refine ⟨served.world, served.choice, ?_, answered⟩
    rw [same]
    apply locked_along locked rest.cut.1
    intro other inside
    rw [Pool.log_append, Pool.log_of_servedBy turn] at since
    exact since other (List.mem_append_right _ (List.mem_cons_of_mem _ inside))
  refine ⟨?_, ?_⟩
  · rintro r rfl owned metered out sent member
    obtain ⟨later, event, earlier, served, rfl, turn, exchange⟩ := Pool.event_of_own member
    rw [List.append_assoc, List.cons_append] at run asked
    have allowed := Pool.asked_of_known run (launch_rule gs st) asked turn
    have command : served.command = .gateway (.send out) := congrArg (·.1) exchange
    rw [command, Pool.own_append, unborn, List.append_nil] at allowed
    obtain ⟨_, same, _, claims, ⟨token, now, cookie, _, verified⟩, covered⟩ := allowed
    cases same
    obtain ⟨req, due⟩ := Option.ne_none_iff_exists'.mp metered
    have charged := covered req due
    rw [owned token now claims cookie verified] at charged
    have member : (⟨.gateway (.charge form.address req), some 200⟩ : Exchange Command Command.Reply) ∈
        Pool.own j (later ++ event :: earlier) := by
      rw [List.append_cons, Pool.own_append]
      exact List.mem_append_right _ charged
    obtain ⟨w, choice, shut, answered⟩ := met member
    obtain ⟨_, accepted⟩ := call_answered answered.symm
    exact Bool.noConfusion (shut.suspended.symm.trans (charge_accepted accepted).1)
  · intro signs code issued expires through
    have ends := Pool.answered_of_run run (launch_rule gs st) asked through
    rw [Pool.own_append, unborn, List.append_nil] at ends
    have read : ∃ found, (⟨.user (.selectBanned form.address), .ok found⟩ : Exchange Command Command.Reply) ∈ Pool.own j late ∧
        found.getD false = false := by
      cases request with
      | worker arrival =>
        cases arrival with
        | verify req => exact ends code form.address issued expires rfl
        | other request =>
          cases request with
          | verifySolana req => exact ends code form.address issued expires rfl
          | topup | link | unlink => cases signs
      | _ => cases signs
    obtain ⟨found, member, free⟩ := read
    obtain ⟨w, choice, shut, answered⟩ := met member
    rw [shut.read answered.symm] at free
    cases free

section Example
open Gateway (sampleState)
open Worker (sampleSiwe signingIn contested issued)

/-- The wallet has an account already. -/
def enrolled : World := ⟨{ issued with users := [⟨contested, 0, 0, false, none⟩] }, fun _ => none⟩

def redirects : Program Command Command.Reply Outcome → Option String
  | .pure (.ok (.redirect location)) => some location
  | _ => none

theorem redirected {threads : List (Program Command Command.Reply Outcome)} {i : Nat} {location : String}
    (answered : (threads.map redirects)[i]? = some (some location)) : threads[i]? = some (.pure (.ok (.redirect location))) := by
  rw [List.getElem?_map] at answered
  obtain ⟨program, there, redirects⟩ := Option.map_eq_some_iff.mp answered
  rw [there]
  cases program with
  | call command next => cases redirects
  | pure outcome =>
    cases outcome with
    | error answer => cases redirects
    | ok answer =>
      cases answer with
      | redirect other =>
        cases redirects
        rfl
      | _ => cases redirects

theorem ban_locks_out_wallet :
    let banning := [.spawn (.ban (some "admin") ⟨contested, 1⟩)] ++ advances 0 3
    let banned := (machine sampleState sampleSiwe enrolled).play ([], ⟨enrolled, []⟩) banning
    let run := (machine sampleState sampleSiwe enrolled).play ([], banned.2)
      ([.spawn (.worker (.other signingIn))] ++ advances 1 7)
    ∀ code issued expires, run.2.threads[1]? ≠ some (.pure (.ok (.user (.response code (.session contested issued expires))))) := by
  intro banning banned run
  have first : (machine sampleState sampleSiwe enrolled).Run (fun _ _ _ => True) ⟨enrolled, []⟩ banned.1 banned.2 :=
    Machine.Run.play .start banning (Machine.permitted_always (fun _ _ _ => trivial) _ _)
  have rest : (machine sampleState sampleSiwe enrolled).Run (fun _ _ _ => True) banned.2 run.1 run.2 :=
    Machine.Run.play .start _ (Machine.permitted_always (fun _ _ _ => trivial) _ _)
  have observed : banned.2.threads.map redirects = [some ("/user/admin?address=" ++ contested)] ∧
      (∀ other ∈ Pool.log banned.1, ¬ lifts contested other.command) ∧
      ∀ other ∈ Pool.log run.1, ¬ lifts contested other.command := by
    decide +kernel
  obtain ⟨answers, before, since⟩ := observed
  have through : banned.2.threads[0]? = some (.pure (.ok (.redirect ("/user/admin?address=" ++ contested)))) :=
    redirected (by rw [answers]; rfl)
  have unlifted : Unlifted 0 contested banned.1 := by
    intro later event earlier served split _ _ other member
    apply before other
    rw [split, Pool.log_append]
    exact List.mem_append_left _ member
  have shut := @ban_locks_out _ _ _ banned.1 run.1 run.2 banned.2 (fun _ _ _ => True) 0 (some "admin") ⟨contested, 1⟩ first rfl rfl _ through
    unlifted rest since 1 (Nat.le_of_eq (List.length_map redirects ▸ congrArg List.length answers)) (.worker (.other signingIn)) rfl
  exact shut.2 trivial

end Example

end LetsEmbed.Platform
