import LetsEmbed.Proofs.AccountGrant
import LetsEmbed.Systems.Quota

/-! What one plan period can draw without paying points. Charges roll the window
once it elapsed, and every successful subscribe opens a new one at once, so the
cap of an interval grows with the renewals made in it. -/

namespace LetsEmbed.Account
open Config Rust Systems

inductive Counter where
  | views
  | searches

def Counter.limit : Counter → Plan → Option Int
  | .views, p => p.viewsPerWindow
  | .searches, p => some p.searchesPerWindow

def Counter.units : Counter → ChargeKind → Int
  | .views, .search => 0
  | .views, kind => viewCost kind
  | .searches, .search => 1
  | .searches, _ => 0

def Counter.meter (c : Counter) (s : Storage) : Meter :=
  ⟨s.winStart.getD 0, match c with | .views => s.winViews.getD 0 | .searches => s.winSearch.getD 0⟩

def Counter.of (c : Counter) (w : Window) : Meter :=
  ⟨w.start.getD 0, match c with | .views => w.views | .searches => w.search⟩

/-- Units an event drew without a balance deduction. -/
def Counter.drawn (c : Counter) (e : Event) : Int :=
  match e.input.op with
  | .charge req => if e.output.charged = true ∧ spent e = 0 then c.units req.kind else 0
  | _ => 0

def drawnIn (c : Counter) (past : List Event) : Int := (past.map c.drawn).sum

def renews (e : Event) : Bool :=
  match e.input.op, e.output with
  | .subscribe _, .status _ => true
  | _, _ => false

def renewals (past : List Event) : Nat := past.countP renews

def RunsPlan (id : String) (s : Storage) (now : Nat) : Prop := s.plan = some id ∧ now < s.getPeriodEnd

/-- The step happens in the interval, with the plan active before and after. -/
def InPeriod (id : String) (since upTo : Nat) (s : Storage) (i : Input) : Prop :=
  (since ≤ i.now ∧ i.now ≤ upTo) ∧ RunsPlan id s i.now ∧ RunsPlan id (step s i).2 i.now

theorem RunsPlan.active {id : String} {s : Storage} {now : Nat} (runs : RunsPlan id s now) :
    planActive s now = true :=
  (planActive_iff s now).mpr ⟨by rw [runs.1]; rfl, runs.2⟩

theorem RunsPlan.chargePlan {id : String} {s : Storage} {now : Nat} (runs : RunsPlan id s now) :
    chargePlan s now = Config.plan id := by
  rw [Account.chargePlan, if_pos runs.active, runs.1]
  rfl

section Meters
variable {c : Counter} {p : Plan} {limit : Int} {s t : Storage} {now since : Nat} {drawn : Int} {resets : Nat}

theorem meter_frame (start : t.winStart = s.winStart) (views : t.winViews = s.winViews)
    (search : t.winSearch = s.winSearch) : c.meter t = c.meter s := by
  cases c <;> simp only [Counter.meter, start, views, search]

theorem meter_touch (s : Storage) : c.meter (ensureInit s) = c.meter s :=
  meter_frame (ensureInit_winStart s) (ensureInit_winViews s) (ensureInit_winSearch s)

theorem InForce.meter (inForce : InForce p s now) (limited : c.limit p = some limit) :
    (0 ≤ (c.meter s).used ∧ (c.meter s).used ≤ limit) ∧ (c.meter s).start ≤ now := by
  obtain ⟨start, past, opened⟩ := inForce.started
  have started : (c.meter s).start ≤ now := by
    simp only [Counter.meter, opened]
    exact past
  cases c with
  | views => exact ⟨⟨inForce.views.1, inForce.views.2 limit limited⟩, started⟩
  | searches =>
    cases limited
    exact ⟨inForce.search, started⟩

theorem within_roll (within : Within windowSecs limit since (c.meter s) drawn resets)
    (started : s.winStart.isSome = true) :
    Within windowSecs limit since (c.of (rollWindow s true now)) drawn resets := by
  obtain ⟨start, opened⟩ := Option.isSome_iff_exists.mp started
  unfold rollWindow
  split
  next rolled =>
    have elapsed : (c.meter s).start + windowSecs ≤ now := by
      rw [Bool.true_and, opened] at rolled
      simp only [Counter.meter, opened]
      exact (shouldRoll_some now).mp rolled
    have fresh : c.of ⟨some now, 0, 0, true⟩ = ⟨now, 0⟩ := by cases c <;> rfl
    rw [fresh]
    exact within.roll elapsed
  · cases c <;> exact within

theorem of_draw (c : Counter) (w : Window) (kind : ChargeKind) :
    c.of (w.draw kind (viewCost kind)) = ⟨(c.of w).start, (c.of w).used + c.units kind⟩ := by
  cases c <;> cases kind <;> simp [Counter.of, Counter.units, Window.draw]

theorem units_nonneg (c : Counter) (kind : ChargeKind) : 0 ≤ c.units kind := by
  cases c <;> cases kind <;> decide

theorem fits_meter {kind : ChargeKind} {w : Window} (fits : Fits p kind w.views w.search)
    (limited : c.limit p = some limit) (used : (c.of w).used ≤ limit) : (c.of w).used + c.units kind ≤ limit := by
  cases c with
  | searches =>
    cases limited
    cases kind with
    | search => exact fits
    | image | video | embedSearch => simpa [Counter.units] using used
  | views =>
    cases kind with
    | search => simpa [Counter.units] using used
    | image | video | embedSearch =>
      obtain ⟨other, same, room⟩ := fits
      cases same.symm.trans limited
      exact room

/-- A window that was written back, or was not because nothing changed. -/
theorem meter_withWindow {w : Window} (c : Counter) (s : Storage)
    (clean : w.dirty = false → w = ⟨s.winStart, s.winViews.getD 0, s.winSearch.getD 0, false⟩) :
    c.meter (s.withWindow w) = c.of w := by
  cases dirty : w.dirty with
  | true => cases c <;> simp [Counter.meter, Counter.of, Storage.withWindow, dirty]
  | false =>
    rw [clean dirty]
    cases c <;> simp [Counter.meter, Counter.of, Storage.withWindow]

end Meters

theorem drawn_charge (c : Counter) (s : Storage) (now : Nat) (req : ChargeReq) :
    c.drawn (account.event s ⟨now, .charge req⟩) =
      if (charge s now req).1.charged = true ∧ chargeSource (ensureInit s) now req.kind ≠ .balance then
        c.units req.kind
      else 0 := by
  have cost := viewCost_pos req.kind
  have paid : spent (account.event s ⟨now, .charge req⟩) =
      if (charge s now req).1.charged = true ∧ chargeSource (ensureInit s) now req.kind = .balance then
        viewCost req.kind
      else 0 := rfl
  change (if (charge s now req).1.charged = true ∧ spent (account.event s ⟨now, .charge req⟩) = 0 then _ else _) = _
  rw [paid]
  by_cases charged : (charge s now req).1.charged = true
  · by_cases source : chargeSource (ensureInit s) now req.kind = .balance
    · simp [charged, source]; omega
    · simp [charged, source]
  · simp [charged]

section Charges
variable {c : Counter} {p : Plan} {id : String} {limit : Int} {s : Storage} {now since : Nat} {drawn : Int}
  {resets : Nat}

theorem draws_metered {kind : ChargeKind} {w : Window} {balance : Int} (path : String)
    (found : Config.plan id = some p) (limited : c.limit p = some limit) (runs : RunsPlan id s now)
    (started : s.winStart.isSome = true) (reached : since ≤ now) (draws : Draws s now kind w balance)
    (within : Within windowSecs limit since (c.meter s) drawn resets) :
    Within windowSecs limit since (c.meter ((recordView s now path balance).withWindow w))
      (drawn + if chargeSource s now kind ≠ .balance then c.units kind else 0) resets := by
  have rolled : Within windowSecs limit since (c.of (rollWindow s true now)) drawn resets :=
    within_roll within started
  have active := runs.active
  have consulted := runs.chargePlan.trans found
  have same : c.meter ((recordView s now path balance).withWindow w) = c.of w := by
    apply meter_withWindow
    intro clean
    cases draws with
    | unlimited | paid => exact rollWindow_clean s now clean
    | quota => simp at clean
  rw [same]
  cases draws with
  | unlimited source =>
    rw [active]
    have uncounted : c.units kind = 0 := by
      rcases chargeSource_cases s now kind with ⟨_, _, media, q, used, unlimited⟩ | ⟨other, _⟩ | ⟨_, ⟨other, _⟩ | ⟨other, _⟩⟩
      · cases c with
        | views =>
          cases consulted.symm.trans used
          cases unlimited.symm.trans limited
        | searches => cases kind <;> first | rfl | exact absurd rfl media
      all_goals simp [source] at other
    simpa [source, uncounted] using rolled
  | quota source =>
    obtain ⟨q, used, fits⟩ := chargeSource_window source
    cases consulted.symm.trans used
    rw [active] at fits ⊢
    obtain ⟨start, opened, current⟩ := rollWindow_open s now
    have open' : now < (c.of (rollWindow s true now)).start + windowSecs := by
      simp only [Counter.of, opened]
      exact current
    rw [of_draw]
    simpa [source] using rolled.draw (units_nonneg c kind) (fits_meter fits limited rolled.used.2) reached open'
  | paid source =>
    rw [active]
    simpa [source] using rolled

theorem charge_metered {req : ChargeReq} (found : Config.plan id = some p) (limited : c.limit p = some limit)
    (runs : RunsPlan id s now) (started : s.winStart.isSome = true) (reached : since ≤ now)
    (within : Within windowSecs limit since (c.meter s) drawn resets) :
    Within windowSecs limit since (c.meter (charge s now req).2)
      (drawn + c.drawn (account.event s ⟨now, .charge req⟩)) resets := by
  have runs : RunsPlan id (ensureInit s) now := ⟨by simpa using runs.1, by simpa using runs.2⟩
  rw [← meter_touch s] at within
  rw [← ensureInit_winStart s] at started
  rw [drawn_charge]
  have outcome := charge_outcome s now req
  generalize charge s now req = result at outcome ⊢
  generalize ensureInit s = s at *
  cases outcome with
  | banned | deduped | refused =>
    simpa [Reply.charged, repeatResp, Window.answer, Window.resp] using within
  | recorded _ _ draws =>
    simpa [Reply.charged, Window.answer, Window.resp] using
      draws_metered req.path found limited runs started reached draws within

theorem step_metered {upTo : Nat} {i : Input} (found : Config.plan id = some p) (limited : c.limit p = some limit)
    (period : InPeriod id since upTo s i) (inForce : InForce p s i.now)
    (within : Within windowSecs limit since (c.meter s) drawn resets) :
    Within windowSecs limit since (c.meter (account.next s i)) (drawn + c.drawn (account.event s i))
      (resets + if renews (account.event s i) then 1 else 0) := by
  obtain ⟨⟨reached, _⟩, runs, still⟩ := period
  obtain ⟨now, op⟩ := i
  have unchanged {t : Storage} (same : c.meter t = c.meter s) :
      Within windowSecs limit since (c.meter t) (drawn + 0) (resets + 0) := by
    rw [same, Int.add_zero]
    exact within
  cases op with
  | init address =>
    apply unchanged
    exact meter_touch s
  | charge req =>
    obtain ⟨start, _, opened⟩ := inForce.started
    exact charge_metered found limited runs (by rw [opened]; rfl) reached within
  | credit req =>
    apply unchanged
    change c.meter (credit s req).2 = c.meter s
    unfold credit
    dsimp only
    split <;> rfl
  | status => exact unchanged rfl
  | subscribe planId =>
    have outcome := subscribe_outcome s now planId
    change Within windowSecs limit since (c.meter (subscribe s now planId).2) (drawn + 0) (resets +
      if renews ⟨s, ⟨now, .subscribe planId⟩, (subscribe s now planId).1, (subscribe s now planId).2⟩ then 1 else 0)
    generalize subscribe s now planId = result at outcome ⊢
    cases outcome with
    | unknown | poor => exact unchanged rfl
    | @bought target =>
      have fresh : c.meter (subscribed s now target) = ⟨now, 0⟩ := by cases c <;> rfl
      rw [fresh, Int.add_zero]
      exact within.reset reached (inForce.meter limited).2 (by decide)
  | unsubscribe disarmed =>
    have ended : (unsubscribe s now disarmed).2.plan = none := (unsubscribe_frame s now disarmed).1
    cases ended.symm.trans still.1
  | ban banned => exact unchanged rfl
  | alarm =>
    have outcome := alarm_outcome s now
    change (alarm s now).2.plan = some id ∧ _ at still
    apply unchanged
    change c.meter (alarm s now).2 = c.meter s
    generalize alarm s now = result at outcome still ⊢
    cases outcome with
    | kept => rfl
    | lapsed => cases still.1

end Charges

/-- The cap of an interval in which one plan stays active: the quota of every
window it can meet, and one more for each renewal. -/
theorem quota_bounded {past later : List Event} {s final : Storage} {id : String} {p : Plan} {since upTo : Nat}
    (run : account.Run Ordered {} past s) (before : ∀ e ∈ past, e.input.now ≤ since) (interval : since ≤ upTo)
    (stored : s.plan = some id) (found : Config.plan id = some p)
    (period : account.Run (fun more s i => Ordered (more ++ past) s i ∧ InPeriod id since upTo s i) s later final)
    (c : Counter) (limit : Int) (limited : c.limit p = some limit) :
    drawnIn c later ≤ limit * (((upTo - since + windowSecs - 1) / windowSecs : Nat) + 1 + renewals later) := by
  have initial : InForce p s since := by
    obtain ⟨q, same, inForce⟩ := (run_planSound run).later (clock_le before) id stored
    cases found.symm.trans same
    exact inForce
  have metered : Within windowSecs limit since (c.meter final) (drawnIn c later) (renewals later) ∧
      ((c.meter final).start ≤ upTo) := by
    apply period.invariant (fun later final =>
      Within windowSecs limit since (c.meter final) (drawnIn c later) (renewals later) ∧ (c.meter final).start ≤ upTo)
    · obtain ⟨used, started⟩ := initial.meter limited
      exact ⟨.begin used, Nat.le_trans started interval⟩
    · intro more s i sofar allowed ⟨within, _⟩
      obtain ⟨ordered, inPeriod⟩ := allowed
      have whole : account.Run Ordered {} (more ++ past) s :=
        run.append (sofar.weaken fun _ _ _ allowed => allowed.1)
      have sound := (run_planSound whole).later (clock_le ordered)
      have inForce : InForce p s i.now := by
        obtain ⟨q, same, inForce⟩ := sound id inPeriod.2.1.1
        cases found.symm.trans same
        exact inForce
      have after : InForce p (step s i).2 i.now := by
        obtain ⟨q, same, inForce⟩ := planSound_step sound id inPeriod.2.2.1
        cases found.symm.trans same
        exact inForce
      refine ⟨?_, Nat.le_trans (after.meter limited).2 inPeriod.1.2⟩
      have metered := step_metered found limited inPeriod inForce within
      have total : drawnIn c (account.event s i :: more) = drawnIn c more + c.drawn (account.event s i) := by
        rw [drawnIn, List.map_cons, List.sum_cons, Int.add_comm]
        rfl
      rw [total, renewals, List.countP_cons]
      exact metered
  exact metered.1.total (by decide) metered.2

instance (id : String) (since upTo : Nat) (s : Storage) (i : Input) : Decidable (InPeriod id since upTo s i) :=
  inferInstanceAs (Decidable ((_ ∧ _) ∧ (_ ∧ _) ∧ (_ ∧ _)))

def renewer : List Input :=
  let search (path : String) : Input := ⟨864_010, .charge ⟨path, .search⟩⟩
  [search "a", search "b", search "c", search "d", search "e", search "f", search "g", search "h", search "i",
    search "j", ⟨864_010, .subscribe "basic"⟩, search "k"]

theorem renewer_period :
    let run := account.play ([], {}) subscriber
    account.Run (fun more s i => Ordered (more ++ run.1) s i ∧ InPeriod "basic" 864_010 864_010 s i) run.2
      (account.play ([], run.2) renewer).1 (account.play ([], run.2) renewer).2 :=
  Machine.Run.start.play _ (by decide +kernel)

/-- Without counting renewals the cap does not hold. -/
theorem quota_exceeded :
    let run := account.play ([], {}) subscriber
    account.Run (fun more s i => Ordered (more ++ run.1) s i ∧ InPeriod "basic" 864_010 864_010 s i) run.2
      (account.play ([], run.2) renewer).1 (account.play ([], run.2) renewer).2 ∧
    basic.searchesPerWindow * (((864_010 - 864_010 + windowSecs - 1) / windowSecs : Nat) + 1) <
      drawnIn .searches (account.play ([], run.2) renewer).1 :=
  ⟨renewer_period, by decide +kernel⟩

theorem quota_bounded_renewer :
    drawnIn .searches (account.play ([], (account.play ([], {}) subscriber).2) renewer).1 ≤ 20 := by
  have run : account.Run Ordered {} (account.play ([], {}) subscriber).1 (account.play ([], {}) subscriber).2 :=
    Machine.Run.start.play _ (by decide)
  have bound := quota_bounded run (by decide) (Nat.le_refl _) (by decide) (by decide : Config.plan "basic" = some basic)
    renewer_period .searches 10 rfl
  have once : renewals (account.play ([], (account.play ([], {}) subscriber).2) renewer).1 = 1 := by decide +kernel
  rw [once] at bound
  exact bound

end LetsEmbed.Account
