import LetsEmbed.Proofs.AccountDedupe

/-! What `/status` reports is what `/charge` enforces. The report never rolls
the stored window and a charge does, so both are compared through the window
the charge works on. -/

namespace LetsEmbed.Account
open Config Rust Systems

/-- The report promises that the plan pays for one more charge of this kind. -/
def Covered (st : StatusResp) (kind : ChargeKind) : Prop :=
  match kind with
  | .search => ∃ n, st.searchesRemaining = some n ∧ 1 ≤ n
  | .image | .video | .embedSearch =>
    0 < st.periodEnd ∧ (st.viewsRemaining = none ∨ ∃ n, st.viewsRemaining = some n ∧ viewCost kind ≤ n)

def Agrees (resp : ChargeResp) (st : StatusResp) : Prop :=
  resp.balance = st.balance ∧ resp.viewsRemaining = st.viewsRemaining ∧
    resp.searchesRemaining = st.searchesRemaining ∧ resp.windowReset = st.windowReset

theorem covered_media {st : StatusResp} {kind : ChargeKind} (media : kind ≠ .search) :
    Covered st kind ↔
      0 < st.periodEnd ∧ (st.viewsRemaining = none ∨ ∃ n, st.viewsRemaining = some n ∧ viewCost kind ≤ n) := by
  cases kind <;> first | exact Iff.rfl | exact absurd rfl media

/-- A path whose last charge is a day old, or that has none, is no repeat. -/
theorem seenRecently_quiet {past : List Event} {s : Storage} {now : Nat} {path : String}
    (sound : Recency.Sound (chargeLog past) s.seen)
    (quiet : ∀ e ∈ past, ChargedFor path e → e.input.now + dedupeWindowSecs ≤ now) :
    seenRecently s now path = false := by
  cases recent : seenRecently s now path with
  | false => rfl
  | true =>
    have lookup (day : Nat) : ((s.seen day).getD fun _ => none) path = Recency.Buckets.time s.seen day path := by
      unfold Recency.Buckets.time
      cases s.seen day <;> rfl
    have found : ∃ day time, Recency.Buckets.time s.seen day path = some time ∧ now - dedupeWindowSecs < time := by
      unfold seenRecently isRecentView at recent
      simp only [List.any_cons, List.any_nil, Bool.or_false, Bool.or_eq_true, Option.any_eq_true, lookup,
        decide_eq_true_eq] at recent
      rcases recent with found | found
      · exact ⟨_, found⟩
      · exact ⟨_, found⟩
    obtain ⟨day, time, found, near⟩ := found
    obtain ⟨e, member, charged, rfl⟩ := sound day path time found
    have old := quiet e member charged
    omega

section Figures
variable (s : Storage) (now : Nat)

/-- Report and charge may consult the plan differently only while it is over,
and then neither shows it. -/
theorem windowFields_chargePlan : windowFields s (planActive s now) (s.plan.bind Config.plan) now =
    windowFields s (planActive s now) (chargePlan s now) now := by
  unfold chargePlan
  cases planActive s now <;> rfl

theorem windowFields_rolled (active : Bool) (plan : Option Plan) :
    let w := rollWindow s active now
    (windowFields s active plan now).viewsRemaining = viewsRemaining plan active w.views ∧
      (windowFields s active plan now).searchesRemaining = searchesRemaining plan active w.search := by
  cases active with
  | false => exact ⟨rfl, rfl⟩
  | true => cases rolled : shouldRoll s.winStart now <;> simp [windowFields, rollWindow, rolled]

theorem statusResp_viewsRemaining : (statusResp s now).viewsRemaining =
    viewsRemaining (chargePlan s now) (planActive s now) (rollWindow s (planActive s now) now).views :=
  (congrArg WindowFields.viewsRemaining (windowFields_chargePlan s now)).trans (windowFields_rolled s now _ _).1

theorem statusResp_searchesRemaining : (statusResp s now).searchesRemaining =
    searchesRemaining (chargePlan s now) (planActive s now) (rollWindow s (planActive s now) now).search :=
  (congrArg WindowFields.searchesRemaining (windowFields_chargePlan s now)).trans (windowFields_rolled s now _ _).2

theorem statusResp_periodEnd : 0 < (statusResp s now).periodEnd ↔ planActive s now = true := by
  have ended : (statusResp s now).periodEnd = if planActive s now then s.getPeriodEnd else 0 := rfl
  rw [ended]
  cases active : planActive s now with
  | false => simp
  | true => simpa using Nat.zero_lt_of_lt ((planActive_iff s now).mp active).2

theorem windowFields_open {w : Window} {start : Nat} (plan : Option Plan) (opened : s.winStart = some start)
    (current : now < start + windowSecs) (views : s.winViews.getD 0 = w.views)
    (search : s.winSearch.getD 0 = w.search) :
    windowFields s true plan now = ⟨viewsRemaining plan true w.views, searchesRemaining plan true w.search,
      windowReset true (some start) now⟩ := by
  have kept : shouldRoll (some start) now = false := by simpa [shouldRoll] using current
  simp only [windowFields, opened, kept, views, search, Bool.not_false, Bool.and_self, if_true]

theorem windowFields_inactive (plan other : Option Plan) (t : Storage) :
    windowFields s false plan now = windowFields t false other now := by
  cases start : s.winStart <;> cases started : t.winStart <;>
    simp [windowFields, viewsRemaining, searchesRemaining, windowReset, start, started]

end Figures

theorem covered_iff_fits {s : Storage} {now : Nat} {kind : ChargeKind} (known : PlanKnown s) :
    let w := rollWindow s (planActive s now) now
    Covered (statusResp s now) kind ↔ planActive s now = true ∧ ∃ p, chargePlan s now = some p ∧
      (Fits p kind w.views w.search ∨ kind ≠ .search ∧ p.viewsPerWindow = none) := by
  intro w
  have cost := viewCost_pos kind
  cases active : planActive s now with
  | false =>
    refine iff_of_false (fun covered => ?_) (fun fits => absurd fits.1 (by decide))
    by_cases media : kind = .search
    · subst media
      obtain ⟨n, left, _⟩ := covered
      rw [statusResp_searchesRemaining, active] at left
      cases left
    · have ended := (statusResp_periodEnd s now).mp ((covered_media media).mp covered).1
      simp [active] at ended
  | true =>
    obtain ⟨p, consulted, _, _⟩ := known.active active
    have ended := (statusResp_periodEnd s now).mpr active
    have views : (statusResp s now).viewsRemaining = p.viewsPerWindow.map fun limit => max (limit - w.views) 0 := by
      rw [statusResp_viewsRemaining, consulted]
      simp only [viewsRemaining, active, w]
      rfl
    have search : (statusResp s now).searchesRemaining = some (max (p.searchesPerWindow - w.search) 0) := by
      rw [statusResp_searchesRemaining, consulted]
      simp only [searchesRemaining, active, w]
      rfl
    simp only [consulted, Option.some.injEq, exists_eq_left', true_and]
    by_cases media : kind = .search
    · subst media
      simp only [Covered, search, Option.some.injEq, exists_eq_left', Fits, ne_eq, not_true_eq_false, false_and,
        or_false]
      omega
    · rw [covered_media media, fits_media media, views]
      cases p.viewsPerWindow with
      | none => simp [ended, media]
      | some limit => simp [ended]; omega

theorem covered_iff {s : Storage} {now : Nat} {kind : ChargeKind} (known : PlanKnown s) :
    Covered (statusResp s now) kind ↔
      chargeSource s now kind = .freeUnlimited ∨ chargeSource s now kind = .window := by
  refine (covered_iff_fits known).trans ?_
  rcases chargeSource_cases s now kind with ⟨source, active, media, p, consulted, unlimited⟩ |
    ⟨source, active, p, consulted, fits⟩ | ⟨full, source⟩
  · exact iff_of_true ⟨active, p, consulted, .inr ⟨media, unlimited⟩⟩ (.inl source)
  · exact iff_of_true ⟨active, p, consulted, .inl fits⟩ (.inr source)
  · refine iff_of_false ?_ ?_
    · rintro ⟨active, p, consulted, fits | ⟨media, unlimited⟩⟩
      · exact (full active p consulted).1 fits
      · exact (full active p consulted).2 media unlimited
    · rcases source with ⟨source, _⟩ | ⟨source, _⟩ <;> simp [source]

/-- A fresh window always has room, so no refusal hides a roll. -/
theorem refused_kept {s : Storage} {now : Nat} {kind : ChargeKind} (known : PlanKnown s)
    (source : chargeSource s now kind = .refuse) (active : planActive s now = true) :
    shouldRoll s.winStart now = false := by
  obtain ⟨p, consulted, _, sound⟩ := known.active active
  cases rolled : shouldRoll s.winStart now with
  | false => rfl
  | true =>
    have w : rollWindow s (planActive s now) now = ⟨some now, 0, 0, true⟩ := by simp [rollWindow, active, rolled]
    have full : ¬ Fits p kind 0 0 ∧ (kind ≠ .search → p.viewsPerWindow ≠ none) := by
      rcases chargeSource_cases s now kind with ⟨other, _⟩ | ⟨other, _⟩ | ⟨full, _⟩
      · simp [source] at other
      · simp [source] at other
      · simpa only [w] using full active p consulted
    exfalso
    by_cases media : kind = .search
    · subst media
      exact full.1 sound.search
    · obtain ⟨limit, limited⟩ := Option.ne_none_iff_exists'.mp (full.2 media)
      refine full.1 ((fits_media media).mpr ⟨limit, limited, ?_⟩)
      have room := sound.views limit limited
      have small : viewCost kind ≤ costEmbedSearch := by cases kind <;> first | decide | exact absurd rfl media
      omega

theorem Draws.stored {s : Storage} {now : Nat} {kind : ChargeKind} {w : Window} {balance : Int} (path : String)
    (draws : Draws s now kind w balance) (active : planActive s now = true) :
    let after := (recordView s now path balance).withWindow w
    (∃ start, after.winStart = some start ∧ w.start = some start ∧ now < start + windowSecs) ∧
      after.winViews.getD 0 = w.views ∧ after.winSearch.getD 0 = w.search := by
  obtain ⟨start, opened, current⟩ := rollWindow_open s now
  have same : w.start = some start := by
    cases draws with
    | unlimited | paid => rw [active]; exact opened
    | quota => rw [draw_start, active]; exact opened
  cases dirty : w.dirty with
  | true => simp [Storage.withWindow, dirty, same, current]
  | false =>
    have clean : w = ⟨s.winStart, s.winViews.getD 0, s.winSearch.getD 0, false⟩ := by
      cases draws with
      | unlimited | paid => exact rollWindow_clean s now dirty
      | quota => simp at dirty
    have start' : s.winStart = some start := by rw [← same, clean]
    simp [Storage.withWindow, dirty, same, current, start']
    rw [clean]
    exact ⟨rfl, rfl⟩

theorem statusResp_agrees {s : Storage} {now : Nat} {resp : ChargeResp} (balance : resp.balance = s.getBalance)
    (fields : windowFields s (planActive s now) (s.plan.bind Config.plan) now =
      ⟨resp.viewsRemaining, resp.searchesRemaining, resp.windowReset⟩) : Agrees resp (statusResp s now) := by
  refine ⟨balance, ?_, ?_, ?_⟩
  · exact (congrArg WindowFields.viewsRemaining fields).symm
  · exact (congrArg WindowFields.searchesRemaining fields).symm
  · exact (congrArg WindowFields.windowReset fields).symm

theorem charge_agrees {s : Storage} {now : Nat} {req : ChargeReq} (known : PlanKnown s) {status : Nat}
    {resp : ChargeResp} (answered : (charge s now req).1 = .charge status resp) :
    Agrees resp (statusResp (charge s now req).2 now) := by
  have touched : PlanKnown (ensureInit s) := known.of_plan (ensureInit_plan s)
  have outcome := charge_outcome s now req
  generalize charge s now req = result at outcome answered ⊢
  generalize ensureInit s = s at outcome touched
  cases outcome with
  | banned => cases answered
  | deduped =>
    cases answered
    exact statusResp_agrees rfl (windowFields_chargePlan s now)
  | refused _ _ source =>
    cases answered
    refine statusResp_agrees rfl ((windowFields_chargePlan s now).trans ?_)
    obtain ⟨views, search⟩ := windowFields_rolled s now (planActive s now) (chargePlan s now)
    have reset : windowReset (planActive s now) s.winStart now =
        windowReset (planActive s now) (rollWindow s (planActive s now) now).start now := by
      cases active : planActive s now with
      | false => rfl
      | true => simp [rollWindow, refused_kept touched source active]
    exact WindowFields.mk.injEq .. ▸ ⟨views, search, reset⟩
  | @recorded w balance _ _ draws =>
    cases answered
    have activity : planActive ((recordView s now req.path balance).withWindow w) now = planActive s now :=
      planActive_congr now (by simp) (by simp)
    refine statusResp_agrees (by simp [Window.answer, Window.resp]) ?_
    rw [windowFields_chargePlan, activity]
    have consulted : chargePlan ((recordView s now req.path balance).withWindow w) now = chargePlan s now := by
      unfold chargePlan
      simp [activity]
    rw [consulted]
    cases active : planActive s now with
    | false =>
      rw [windowFields_inactive _ now _ (chargePlan s now) { s with winStart := w.start }]
      simp [windowFields, Window.answer, Window.resp, active, viewsRemaining, searchesRemaining]
    | true =>
      obtain ⟨⟨start, opened, same, current⟩, views, search⟩ := draws.stored req.path active
      rw [windowFields_open _ now _ opened current views search]
      simp [Window.answer, Window.resp, active, same]

theorem charge_enforces {s : Storage} {now : Nat} {req : ChargeReq} (known : PlanKnown s)
    (fits : InI64 s.getBalance) (init : s.init.isSome = true) (served : s.isBanned = false)
    (unseen : seenRecently s now req.path = false) :
    let answer := charge s now req
    (Covered (statusResp s now) req.kind →
      (∃ resp, answer.1 = .charge 200 resp ∧ resp.charged = true) ∧ answer.2.getBalance = s.getBalance) ∧
    (¬ Covered (statusResp s now) req.kind →
      (viewCost req.kind ≤ s.getBalance → (∃ resp, answer.1 = .charge 200 resp ∧ resp.charged = true) ∧
        answer.2.getBalance = s.getBalance - viewCost req.kind) ∧
      (s.getBalance < viewCost req.kind → ∃ resp, answer.1 = .charge 402 resp)) := by
  rw [covered_iff known]
  have outcome := charge_outcome s now req
  rw [ensureInit_of_init init] at outcome
  dsimp only
  generalize charge s now req = result at outcome ⊢
  cases outcome with
  | banned suspended => simp [served] at suspended
  | deduped _ recent => simp [unseen] at recent
  | refused _ _ source =>
    have short : s.getBalance < viewCost req.kind := by
      rcases chargeSource_cases s now req.kind with ⟨other, _⟩ | ⟨other, _⟩ | ⟨_, ⟨other, _⟩ | ⟨_, short⟩⟩
      · simp [source] at other
      · simp [source] at other
      · simp [source] at other
      · exact short
    refine ⟨by simp [source], fun _ => ⟨fun enough => by omega, fun _ => ⟨_, rfl⟩⟩⟩
  | recorded _ _ draws =>
    cases draws with
    | unlimited source | quota source =>
      exact ⟨fun _ => ⟨⟨_, rfl, rfl⟩, by simp⟩, fun uncovered => absurd source (by simp_all)⟩
    | paid source =>
      have enough := chargeSource_balance source
      refine ⟨by simp [source], fun _ => ⟨fun _ => ⟨⟨_, rfl, rfl⟩, ?_⟩, fun short => by omega⟩⟩
      simp [i64_of_fits (paid_fits fits enough)]

theorem uncharged {past : List Event} {path : String} (none : chargedCount past = 0) :
    ∀ e ∈ past, ¬ ChargedFor path e := by
  intro e member charged
  exact List.countP_eq_zero.mp none e member charged.2

/-- Over whole runs `/status` foretells the next charge of any path that is
not a repeat, and every charge's figures are those of a `/status` after it. -/
theorem status_enforced {guard : Guard} {past : List Event} {s : Storage} {now : Nat}
    (run : account.Run guard {} past s) :
    (s.init.isSome = true → s.isBanned = false → ∀ req : ChargeReq,
      (∀ e ∈ past, ChargedFor req.path e → e.input.now + dedupeWindowSecs ≤ now) →
      let st := statusResp s now
      let answer := charge s now req
      (((∃ resp, answer.1 = .charge 200 resp ∧ resp.charged = true) ∧ answer.2.getBalance = s.getBalance) ↔
        Covered st req.kind) ∧
      (¬ Covered st req.kind → viewCost req.kind ≤ st.balance →
        (∃ resp, answer.1 = .charge 200 resp ∧ resp.charged = true) ∧
          answer.2.getBalance = s.getBalance - viewCost req.kind) ∧
      (¬ Covered st req.kind → st.balance < viewCost req.kind → ∃ resp, answer.1 = .charge 402 resp)) ∧
    (∀ req status resp, (charge s now req).1 = .charge status resp →
      Agrees resp (statusResp (charge s now req).2 now)) := by
  have known := run_planKnown run
  refine ⟨fun init served req quiet => ?_, fun req status resp answered => charge_agrees known answered⟩
  have unseen := seenRecently_quiet (run_seenSound run) quiet
  obtain ⟨covered, uncovered⟩ := charge_enforces known (run_fits run) init served unseen
  refine ⟨⟨fun free => ?_, covered⟩, fun open' => (uncovered open').1, fun open' => (uncovered open').2⟩
  by_contra open'
  obtain ⟨paid, refused⟩ := uncovered open'
  have cost := viewCost_pos req.kind
  by_cases enough : viewCost req.kind ≤ s.getBalance
  · have spent := (paid enough).2
    omega
  · obtain ⟨resp, answered⟩ := refused (Int.not_le.mp enough)
    obtain ⟨⟨other, granted, _⟩, _⟩ := free
    simp [answered] at granted

theorem status_enforced_subscriber :
    let s := (account.play ([], {}) subscriber).2
    let answer := charge s 864_020 ⟨"/api/search", .search⟩
    (∃ resp, answer.1 = .charge 200 resp ∧ resp.charged = true) ∧ answer.2.getBalance = s.getBalance := by
  intro s answer
  have run : account.Run (fun _ _ _ => True) {} (account.play ([], {}) subscriber).1 s :=
    Machine.Run.start.play _ (by decide)
  have quiet (e : Event) (member : e ∈ (account.play ([], {}) subscriber).1)
      (charged : ChargedFor "/api/search" e) : e.input.now + dedupeWindowSecs ≤ 864_020 :=
    absurd charged (uncharged (by decide) e member)
  exact ((status_enforced run).1 (by decide) (by decide) ⟨"/api/search", .search⟩ quiet).1.mpr ⟨10, by decide, by decide⟩

end LetsEmbed.Account
