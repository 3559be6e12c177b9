import LetsEmbed.Proofs.AccountHistory
import LetsEmbed.Systems.Potential

/-! Conservation of points. The value of an account is its balance together
with what its running plan would be refunded; no operation on plans moves it,
and between operations it only decays with the plan's time. -/

namespace LetsEmbed.Account
open Config Rust Systems

/-- Balance plus the unspent part of the running plan. -/
def value (s : Storage) (now : Nat) : Int := s.getBalance + unusedRefund s now

def gain (s : Storage) (i : Input) : Int :=
  match i.op with
  | .charge req =>
    if (step s i).1.charged = true ∧ chargeSource s i.now req.kind = .balance then -viewCost req.kind else 0
  | .credit req => if s.credit req.key = none then max req.points (-s.getBalance) else 0
  | .init _ | .status | .subscribe _ | .unsubscribe _ | .ban _ | .alarm => 0

theorem proratedRefund_full {price : Int} {period : Nat} (positive : 0 < period) :
    proratedRefund price period period = price := by
  rw [proratedRefund, if_neg (Nat.ne_of_gt positive), Nat.min_self]
  exact Int.mul_tdiv_cancel price (by omega)

theorem proratedRefund_mono {price : Int} (nonneg : 0 ≤ price) (period : Nat) {less more : Nat} (le : less ≤ more) :
    proratedRefund price period less ≤ proratedRefund price period more := by
  unfold proratedRefund
  split
  · exact Int.le_refl 0
  next positive =>
    have shorter : ((min less period : Nat) : Int) ≤ ((min more period : Nat) : Int) := by omega
    exact Int.tdiv_le_tdiv (Int.natCast_pos.mpr (Nat.pos_of_ne_zero positive)) (Int.mul_le_mul_of_nonneg_left shorter nonneg)

theorem unusedRefund_inactive {s : Storage} {now : Nat} (inactive : planActive s now = false) :
    unusedRefund s now = 0 := by simp [unusedRefund, inactive]

theorem unusedRefund_subscribed {s : Storage} {now : Nat} {id : String} {target : Plan}
    (found : Config.plan id = some target) : unusedRefund (subscribed s now target) now = target.pricePoints := by
  have plan := plan_sound found
  have active : planActive (subscribed s now target) now = true :=
    (planActive_iff _ _).mpr ⟨rfl, Nat.lt_add_of_pos_right plan.period⟩
  have stored : (subscribed s now target).plan.bind Config.plan = some target := by
    change Config.plan target.id = some target
    rw [plan_id found]
    exact found
  have remaining : (subscribed s now target).getPeriodEnd - now = target.periodSecs := Nat.add_sub_cancel_left ..
  rw [unusedRefund, if_pos active, stored]
  dsimp only
  rw [remaining]
  exact proratedRefund_full plan.period

theorem unusedRefund_antitone (s : Storage) {now later : Nat} (le : now ≤ later) :
    unusedRefund s later ≤ unusedRefund s now := by
  cases active : planActive s later with
  | false =>
    rw [unusedRefund_inactive active]
    exact unusedRefund_nonneg s now
  | true =>
    obtain ⟨stored, running⟩ := (planActive_iff s later).mp active
    have before : planActive s now = true := (planActive_iff s now).mpr ⟨stored, Nat.lt_of_le_of_lt le running⟩
    rw [unusedRefund, unusedRefund, if_pos active, if_pos before]
    split
    next p consulted =>
      obtain ⟨id, _, found⟩ := Option.bind_eq_some_iff.mp consulted
      exact proratedRefund_mono (Int.le_of_lt (plan_sound found).price.1) _ (by omega)
    · exact Int.le_refl 0

theorem value_antitone (s : Storage) (now later : Nat) (le : now ≤ later) : value s later ≤ value s now :=
  Int.add_le_add_left (unusedRefund_antitone s le) _

theorem value_frame {s t : Storage} {now : Nat} (balance : t.getBalance = s.getBalance) (plan : t.plan = s.plan)
    (ends : t.periodEnd = s.periodEnd) : value t now = value s now := by
  rw [value, value, balance, unusedRefund_congr now plan ends]

theorem charge_value {s : Storage} {now : Nat} {req : ChargeReq} (init : s.init.isSome = true)
    (fits : InI64 s.getBalance) :
    value (charge s now req).2 now = value s now + gain s ⟨now, .charge req⟩ := by
  have outcome := charge_outcome s now req
  rw [ensureInit_of_init init] at outcome
  change _ = _ + if (charge s now req).1.charged = true ∧ chargeSource s now req.kind = .balance then _ else _
  generalize charge s now req = result at outcome ⊢
  cases outcome with
  | banned | deduped | refused => simp [Reply.charged, repeatResp, Window.answer, Window.resp]
  | @recorded w balance _ _ draws =>
    have same : unusedRefund ((recordView s now req.path balance).withWindow w) now = unusedRefund s now :=
      unusedRefund_congr now (by simp) (by simp)
    rw [value, value, same]
    cases draws with
    | unlimited source | quota source => simp [source]
    | paid source =>
      have exact := i64_of_fits (paid_fits fits (chargeSource_balance source))
      simp only [withWindow_getBalance, recordView_getBalance, exact, source, Reply.charged, Window.answer,
        Window.resp, and_self, if_true]
      omega

theorem credit_value {s : Storage} {now : Nat} {req : CreditReq} (exact : Exact s ⟨now, .credit req⟩) :
    value (credit s req).2 now = value s now + gain s ⟨now, .credit req⟩ := by
  change _ = _ + if s.credit req.key = none then max req.points (-s.getBalance) else 0
  unfold credit
  cases applied : s.credit req.key with
  | some => simp
  | none =>
    simp only [Option.isSome_none, Bool.false_eq_true, if_false, if_true, i64_of_fits (exact applied)]
    have same : unusedRefund { s with
        balance := some (max (s.getBalance + req.points) 0)
        credit := Function.update s.credit req.key (some true) } now = unusedRefund s now :=
      unusedRefund_congr now rfl rfl
    rw [value, value, same]
    change max (s.getBalance + req.points) 0 + _ = _
    omega

theorem subscribe_value {s : Storage} {now : Nat} {planId : String} (nonneg : 0 ≤ s.getBalance)
    (exact : Exact s ⟨now, .subscribe planId⟩) : value (subscribe s now planId).2 now = value s now := by
  have outcome := subscribe_outcome s now planId
  generalize subscribe s now planId = result at outcome ⊢
  cases outcome with
  | unknown | poor => rfl
  | @bought target found enough =>
    have fits : i64 (s.getBalance - (target.pricePoints - unusedRefund s now)) =
        s.getBalance - (target.pricePoints - unusedRefund s now) := i64_of_fits (exact target found enough)
    have left : (subscribed s now target).getBalance = s.getBalance - (target.pricePoints - unusedRefund s now) := by
      change max (i64 (s.getBalance - (target.pricePoints - unusedRefund s now))) 0 = _
      rw [fits]
      omega
    rw [value, value, left, unusedRefund_subscribed found]
    omega

theorem unsubscribe_value {s : Storage} {now : Nat} {disarmed : Bool} (exact : Exact s ⟨now, .unsubscribe disarmed⟩) :
    value (unsubscribe s now disarmed).2 now = value s now := by
  have ended : planActive (unsubscribe s now disarmed).2 now = false := by
    simp [planActive, (unsubscribe_frame s now disarmed).1]
  rw [value, unusedRefund_inactive ended, unsubscribe_getBalance, value]
  cases active : planActive s now with
  | false => simp [unusedRefund_inactive active]
  | true =>
    have fits : i64 (s.getBalance + unusedRefund s now) = s.getBalance + unusedRefund s now :=
      i64_of_fits (exact active)
    rw [if_pos rfl, fits, Int.add_zero]

theorem alarm_value (s : Storage) (now : Nat) : value (alarm s now).2 now = value s now := by
  have outcome := alarm_outcome s now
  generalize alarm s now = result at outcome ⊢
  cases outcome with
  | kept => exact value_frame rfl rfl rfl
  | lapsed passed =>
    have ended : planActive s now = false := by simp [planActive, passed]
    rw [value, value, unusedRefund_inactive ended, unusedRefund_inactive rfl]
    rfl

theorem step_value {s : Storage} {i : Input} (init : s.init.isSome = true) (fits : InI64 s.getBalance)
    (nonneg : 0 ≤ s.getBalance) (exact : Exact s i) : value (step s i).2 i.now = value s i.now + gain s i := by
  obtain ⟨now, op⟩ := i
  cases op with
  | init address =>
    change value { ensureInit s with address := some address } now = value s now + 0
    rw [ensureInit_of_init init, Int.add_zero]
    exact value_frame rfl rfl rfl
  | charge req => exact charge_value init fits
  | credit req => exact credit_value exact
  | status => exact (Int.add_zero _).symm
  | subscribe planId => exact (subscribe_value nonneg exact).trans (Int.add_zero _).symm
  | unsubscribe disarmed => exact (unsubscribe_value exact).trans (Int.add_zero _).symm
  | ban banned => exact (value_frame rfl rfl rfl).trans (Int.add_zero _).symm
  | alarm => exact (alarm_value s now).trans (Int.add_zero _).symm

def Op.touches : Op → Bool
  | .init _ | .charge _ => true
  | .credit _ | .status | .subscribe _ | .unsubscribe _ | .ban _ | .alarm => false

theorem touches_init {s : Storage} {i : Input} (touches : i.op.touches = true) : (step s i).2.init.isSome = true := by
  obtain ⟨now, op⟩ := i
  cases op with
  | init address => exact ensureInit_init s
  | charge req =>
    have init := ensureInit_init s
    have outcome := charge_outcome s now req
    change (charge s now req).2.init.isSome = true
    generalize charge s now req = result at outcome ⊢
    cases outcome with
    | banned | deduped | refused => exact init
    | recorded => simpa using init
  | credit | status | subscribe | unsubscribe | ban | alarm => cases touches

theorem untouched_init {s : Storage} {i : Input} (untouched : i.op.touches = false) :
    (step s i).2.init = s.init := by
  obtain ⟨now, op⟩ := i
  cases op with
  | init | charge => cases untouched
  | credit req =>
    simp only [step, credit]
    split <;> rfl
  | status | ban => rfl
  | subscribe planId =>
    have outcome := subscribe_outcome s now planId
    change (subscribe s now planId).2.init = s.init
    generalize subscribe s now planId = result at outcome ⊢
    cases outcome <;> rfl
  | unsubscribe disarmed => exact (unsubscribe_frame s now disarmed).2.1
  | alarm =>
    have outcome := alarm_outcome s now
    change (alarm s now).2.init = s.init
    generalize alarm s now = result at outcome ⊢
    cases outcome <;> rfl

theorem init_step {s : Storage} {i : Input} (init : s.init.isSome = true) : (step s i).2.init.isSome = true := by
  cases touches : i.op.touches with
  | true => exact touches_init touches
  | false =>
    rw [untouched_init touches]
    exact init

/-- An account that is set up and has no debt, however it came about. -/
structure Settled (s : Storage) : Prop where
  init : s.init.isSome = true
  fits : InI64 s.getBalance
  nonneg : 0 ≤ s.getBalance

theorem settled_step {s : Storage} {i : Input} (settled : Settled s) (exact : Exact s i) : Settled (step s i).2 :=
  ⟨init_step settled.init, fits_step settled.fits, balance_step settled.fits exact settled.nonneg⟩

theorem run_settled {guard : Guard} {past : List Event} {start s : Storage} (settled : Settled start)
    (run : account.Run guard start past s) (allowed : ∀ {past s i}, guard past s i → Exact s i) : Settled s :=
  run.invariant (fun _ s => Settled s) settled fun _ permitted settled => settled_step settled (allowed permitted)

/-- Buying, switching and leaving plans, and whatever else moves no points. -/
def Op.neutral : Op → Bool
  | .charge _ | .credit _ => false
  | .init _ | .status | .subscribe _ | .unsubscribe _ | .ban _ | .alarm => true

/-- What waiting cost the account between `since` and the last operation. -/
def decay (since : Nat) (past : List Event) : Int := losses value Input.now since past

/-- The ledger of an account: what every operation moves, what waiting costs,
and therefore what any later run leaves. -/
theorem value_conserved {guard : Guard} {past : List Event} {s : Storage} (run : account.Run guard {} past s)
    (init : s.init.isSome = true) (nonneg : 0 ≤ s.getBalance) :
    (∀ i, Exact s i → value (account.next s i) i.now = value s i.now + gain s i) ∧
    (∀ now later, now ≤ later → value s later ≤ value s now) ∧
    ∀ since later final,
      account.Run (fun past s i => Timed Input.now since past s i ∧ Exact s i) s later final →
      value final (clockFrom Input.now since later) = value s since + gains gain later - decay since later ∧
      0 ≤ decay since later ∧
      ((∀ e ∈ later, e.input.op.neutral = true) →
        final.getBalance ≤ value s since ∧
        value final (clockFrom Input.now since later) + decay since later = value s since) := by
  have settled : Settled s := ⟨init, run_fits run, nonneg⟩
  refine ⟨fun i exact => step_value init settled.fits nonneg exact, value_antitone s, ?_⟩
  intro since later final continued
  have account : value final (clockFrom Input.now since later) =
      value s since + gains gain later - decay since later := by
    apply continued.potential
    intro past s i run allowed
    have before := run_settled settled run And.right
    exact step_value before.init before.fits before.nonneg allowed.2
  have waiting : 0 ≤ decay since later := continued.losses_nonneg And.left fun {_ state} _ => value_antitone state
  refine ⟨account, waiting, fun neutral => ?_⟩
  have free : gains gain later = 0 := by
    apply gains_eq_zero
    intro e member
    have moved := neutral e member
    obtain ⟨before, ⟨now, op⟩, output, after⟩ := e
    cases op <;> first | rfl | cases moved
  have refund := unusedRefund_nonneg final (clockFrom Input.now since later)
  rw [free] at account
  refine ⟨?_, by omega⟩
  have worth : value final (clockFrom Input.now since later) =
      final.getBalance + unusedRefund final (clockFrom Input.now since later) := rfl
  omega

theorem value_conserved_switch :
    let s := (account.play ([], {}) subscriber).2
    let left := (account.play ([], s)
      [⟨864_010 + 10 * 86_400, .subscribe "pro"⟩, ⟨864_010 + 11 * 86_400, .unsubscribe true⟩]).2
    left.getBalance ≤ value s 864_010 := by
  intro s left
  have run : account.Run (fun _ _ _ => True) {} (account.play ([], {}) subscriber).1 s :=
    Machine.Run.start.play _ (by decide)
  have continued : account.Run (fun past s i => Timed Input.now 864_010 past s i ∧ Exact s i) s
      (account.play ([], s)
        [⟨864_010 + 10 * 86_400, .subscribe "pro"⟩, ⟨864_010 + 11 * 86_400, .unsubscribe true⟩]).1 left :=
    Machine.Run.start.play _ (by decide)
  exact (((value_conserved run (by decide) (by decide)).2.2 _ _ _ continued).2.2 (by decide)).1

end LetsEmbed.Account
