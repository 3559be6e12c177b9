import LetsEmbed.Proofs.AccountDedupe
import Mathlib.Data.Set.Card

/-! How many `seen:{day}` maps the storage holds. The first charge of a day drops
the map of two days before and no other, so a map is there exactly when its day was
charged and the second day after it was not. -/

namespace LetsEmbed.Account
open Config Rust Systems

def dayOf (now : Nat) : Nat := now / 86_400

/-- The request passes every refusal of `charge`. -/
def records (s : Storage) (i : Input) : Bool :=
  match i.op with
  | .charge req =>
    let s := ensureInit s
    !s.isBanned && !seenRecently s i.now req.path && chargeSource s i.now req.kind != .refuse
  | _ => false

theorem Draws.source {s : Storage} {now : Nat} {kind : ChargeKind} {w : Window} {balance : Int}
    (draws : Draws s now kind w balance) : (chargeSource s now kind != .refuse) = true := by
  cases draws with
  | unlimited source | quota source | paid source =>
    rw [source]
    rfl

theorem charged_eq_records (s : Storage) (i : Input) : (step s i).1.charged = records s i := by
  obtain ⟨now, op⟩ := i
  cases op with
  | charge req =>
    have outcome := charge_outcome s now req
    change (charge s now req).1.charged = (!(ensureInit s).isBanned && !seenRecently (ensureInit s) now req.path &&
      chargeSource (ensureInit s) now req.kind != .refuse)
    generalize charge s now req = result at outcome ⊢
    cases outcome with
    | banned suspended =>
      rw [suspended]
      rfl
    | deduped served recent =>
      rw [recent, Bool.not_true, Bool.and_false]
      rfl
    | refused served fresh source =>
      rw [source, bne_self_eq_false, Bool.and_false]
      rfl
    | recorded served fresh draws =>
      rw [served, fresh, draws.source]
      rfl
  | credit req =>
    simp only [step, credit]
    split <;> rfl
  | subscribe planId =>
    have outcome := subscribe_outcome s now planId
    change (subscribe s now planId).1.charged = false
    generalize subscribe s now planId = result at outcome ⊢
    cases outcome <;> rfl
  | alarm =>
    have outcome := alarm_outcome s now
    change (alarm s now).1.charged = false
    generalize alarm s now = result at outcome ⊢
    cases outcome <;> rfl
  | init | status | unsubscribe | ban => rfl

def ChargedOn (past : List Event) (day : Nat) : Prop :=
  ∃ e ∈ past, records e.before e.input = true ∧ dayOf e.input.now = day

theorem chargedOn_cons {e : Event} {past : List Event} {day : Nat} : ChargedOn (e :: past) day ↔
    ChargedOn past day ∨ records e.before e.input = true ∧ dayOf e.input.now = day :=
  (List.exists_mem_cons_iff _ e past).trans or_comm

theorem ChargedOn.le {past : List Event} {day now : Nat} (charged : ChargedOn past day)
    (later : ∀ e ∈ past, e.input.now ≤ now) : day ≤ dayOf now := by
  obtain ⟨e, member, _, rfl⟩ := charged
  exact Nat.div_le_div_right (later e member)

/-- A charge that is recorded drops one map at most, and not its own. -/
theorem step_maps (s : Storage) (i : Input) :
    records s i = false ∧ (step s i).2.seen = s.seen ∨
    records s i = true ∧ ((step s i).2.seen (dayOf i.now)).isSome = true ∧
      ∀ day ≠ dayOf i.now, (step s i).2.seen day =
        if s.seen (dayOf i.now) = none ∧ day = u64Sub (dayOf i.now) 2 then none else s.seen day := by
  rcases step_seen s i with ⟨uncharged, same⟩ | ⟨req, balance, _, charged, seen⟩
  · exact .inl ⟨(charged_eq_records s i).symm.trans uncharged, same⟩
  · refine .inr ⟨(charged_eq_records s i).symm.trans charged, ?_, fun day other => ?_⟩
    · rw [seen, recordView]
      simp [dayOf]
    · rw [seen]
      refine (Function.update_of_ne other ..).trans ?_
      rw [ensureInit_seen]
      change (if (s.seen (dayOf i.now)).isNone then Function.update s.seen (u64Sub (dayOf i.now) 2) none else s.seen) day = _
      cases today : s.seen (dayOf i.now) with
      | some map => simp
      | none =>
        by_cases dropped : day = u64Sub (dayOf i.now) 2
        · simp [dropped]
        · simp [dropped]

theorem run_maps {past : List Event} {s : Storage} (run : account.Run Ordered {} past s) (day : Nat) :
    (s.seen day).isSome = true ↔ ChargedOn past day ∧ ¬ ChargedOn past (day + 2) := by
  induction run generalizing day with
  | start => simp [ChargedOn]
  | @step past s i run ordered ih =>
    have bound {day : Nat} (charged : ChargedOn past day) : day ≤ dayOf i.now := charged.le ordered
    change ((step s i).2.seen day).isSome = true ↔ _
    rw [chargedOn_cons, chargedOn_cons]
    change _ ↔ (_ ∨ records s i = true ∧ dayOf i.now = day) ∧ ¬ (_ ∨ records s i = true ∧ dayOf i.now = day + 2)
    rcases step_maps s i with ⟨quiet, same⟩ | ⟨recorded, today, others⟩
    · simp only [same, ih, quiet, Bool.false_eq_true, false_and, or_false]
    · simp only [recorded, true_and]
      by_cases own : day = dayOf i.now
      · subst own
        refine iff_of_true today ⟨.inr rfl, ?_⟩
        rintro (charged | same)
        · exact absurd (bound charged) (by omega)
        · omega
      · rw [others day own]
        split
        next dropped =>
          refine iff_of_false (by simp) ?_
          rintro ⟨charged | same, kept⟩
          · have early := bound charged
            unfold u64Sub at dropped
            split at dropped
            · exact kept (.inr (by omega))
            · omega
          · exact own same.symm
        next left =>
          rw [ih]
          constructor
          · rintro ⟨charged, kept⟩
            refine ⟨.inl charged, ?_⟩
            rintro (charged | same)
            · exact kept charged
            · apply left
              refine ⟨?_, by rw [same, u64Sub_of_le (by omega)]; rfl⟩
              rw [← Option.not_isSome_iff_eq_none, ih, same]
              exact fun both => kept both.1
          · rintro ⟨charged | same, kept⟩
            · exact ⟨charged, fun later => kept (.inl later)⟩
            · exact absurd same.symm own

def maps (s : Storage) : Set Nat := {day | (s.seen day).isSome = true}

/-- The first charge of a day leaves no map older than the previous two days. -/
def Swept (e : Event) : Prop :=
  e.output.charged = true → e.before.seen (dayOf e.input.now) = none → ∀ day ∈ maps e.after, dayOf e.input.now ≤ day + 2

/-- A charged day that is charged after, three days later or more, had its map
dropped by a charge on the second day after it. -/
def Unbroken (past : List Event) : Prop :=
  ∀ early later, ChargedOn past early → ChargedOn past later → early + 2 < later → ChargedOn past (early + 2)

def Recent (past : List Event) (s : Storage) : Prop := ∀ day ∈ maps s, ∀ later, ChargedOn past later → later ≤ day + 2

section Horizon
variable {past : List Event} {s : Storage} {i : Input}

theorem recent_iff_unbroken (run : account.Run Ordered {} past s) : Recent past s ↔ Unbroken past := by
  constructor
  · intro recent early later charged last apart
    by_contra unswept
    have near := recent early ((run_maps run early).mpr ⟨charged, unswept⟩) later last
    omega
  · intro unbroken day stored later last
    obtain ⟨charged, unswept⟩ := (run_maps run day).mp stored
    by_contra apart
    exact unswept (unbroken day later charged last (Nat.not_le.mp apart))

theorem Unbroken.before (unbroken : Unbroken (account.event s i :: past)) (ordered : Ordered past s i) :
    Unbroken past := by
  intro early later charged last apart
  rcases chargedOn_cons.mp (unbroken early later (chargedOn_cons.mpr (.inl charged)) (chargedOn_cons.mpr (.inl last)) apart)
    with swept | ⟨_, now⟩
  · exact swept
  · have bound : later ≤ dayOf i.now := last.le ordered
    have same : dayOf i.now = early + 2 := now
    omega

theorem Recent.bounded (run : account.Run Ordered {} past s) (recent : Recent past s) : (maps s).encard ≤ 3 := by
  by_cases some : ∃ day, day ∈ maps s
  · obtain ⟨first, stored, least⟩ : ∃ first ∈ maps s, ∀ day ∈ maps s, first ≤ day := by
      classical
      exact ⟨Nat.find some, Nat.find_spec some, fun day member => Nat.find_min' some member⟩
    have within : maps s ⊆ ({first, first + 1, first + 2} : Finset Nat) := by
      intro day member
      have low := least day member
      have high := recent first stored day ((run_maps run day).mp member).1
      simp
      omega
    refine (Set.encard_le_encard within).trans ?_
    rw [Set.encard_coe_eq_coe_finsetCard]
    exact_mod_cast Finset.card_le_three
  · have empty : maps s = ∅ := Set.eq_empty_of_forall_notMem fun day member => some ⟨day, member⟩
    simp [empty]

theorem Recent.step (recent : Recent past s) (swept : Swept (account.event s i)) (ordered : Ordered past s i)
    (run : account.Run Ordered {} past s) : Recent (account.event s i :: past) (account.next s i) := by
  intro day stored later last
  rcases step_maps s i with ⟨quiet, same⟩ | ⟨recorded, today, others⟩
  · have kept : day ∈ maps s := by rwa [maps, Set.mem_ofPred_eq, ← same]
    rcases chargedOn_cons.mp last with before | ⟨recorded, _⟩
    · exact recent day kept later before
    · cases quiet.symm.trans recorded
  · have bound : later ≤ dayOf i.now := by
      rcases chargedOn_cons.mp last with before | ⟨_, rfl⟩
      · exact before.le ordered
      · exact Nat.le_refl _
    refine Nat.le_trans bound ?_
    cases started : s.seen (dayOf i.now) with
    | none => exact swept ((charged_eq_records s i).trans recorded) started day stored
    | some map =>
      by_cases own : day = dayOf i.now
      · omega
      · have kept : day ∈ maps s := by
          have left := others day own
          simp only [started, reduceCtorEq, false_and, if_false] at left
          rwa [maps, Set.mem_ofPred_eq, ← left]
        exact recent day kept _ ((run_maps run _).mp (by rw [started]; rfl)).1

theorem Recent.swept (recent : Recent (account.event s i :: past) (account.next s i)) : Swept (account.event s i) := by
  intro charged _ day stored
  refine recent day stored _ (chargedOn_cons.mpr (.inr ⟨?_, rfl⟩))
  exact (charged_eq_records s i).symm.trans charged

/-- The maps stay bounded along a run exactly when no charged day is left behind. -/
theorem maps_bounded_iff (run : account.Run Ordered {} past s) :
    (∀ e ∈ past, (maps e.after).encard ≤ 3 ∧ Swept e) ↔ Unbroken past := by
  constructor
  · intro bounded
    rw [← recent_iff_unbroken run]
    induction run with
    | start => intro day stored; cases stored
    | step run ordered ih =>
      exact (ih fun e member => bounded e (List.mem_cons_of_mem _ member)).step
        (bounded _ List.mem_cons_self).2 ordered run
  · intro unbroken
    induction run with
    | start => simp
    | step run ordered ih =>
      intro e member
      rcases List.mem_cons.mp member with rfl | member
      · have recent := (recent_iff_unbroken (run.step ordered)).mpr unbroken
        exact ⟨recent.bounded (run.step ordered), recent.swept⟩
      · exact ih (unbroken.before ordered) e member

end Horizon

def visits (days : List Nat) : List Input := days.map fun day => ⟨day * 86_400, .charge ⟨"/images/a.webp", .image⟩⟩

/-- An account charged every third day keeps a map of each of these days. -/
theorem maps_left_behind :
    let run := account.play ([], {}) (visits [10, 13, 16, 19])
    account.Run Ordered {} run.1 run.2 ∧ 3 < (maps run.2).encard ∧ ∃ e ∈ run.1, ¬ Swept e := by
  intro run
  have stored : ∀ day ∈ [10, 13, 16, 19], day ∈ maps run.2 := by
    change ∀ day ∈ [10, 13, 16, 19], (run.2.seen day).isSome = true
    decide +kernel
  refine ⟨Machine.Run.start.play _ (by decide +kernel), ?_, ?_⟩
  · have within : (({10, 13, 16, 19} : Finset Nat) : Set Nat) ⊆ maps run.2 := by
      intro day member
      exact stored day (by simpa using member)
    refine lt_of_lt_of_le ?_ (Set.encard_le_encard within)
    rw [Set.encard_coe_eq_coe_finsetCard]
    decide
  · refine ⟨_, List.mem_cons_self, fun swept => ?_⟩
    exact absurd (swept (by decide +kernel) (by decide +kernel) 10 (stored 10 (by decide))) (by decide)

theorem maps_bounded_iff_daily :
    let run := account.play ([], {}) (visits [10, 11, 12, 13])
    ∀ e ∈ run.1, (maps e.after).encard ≤ 3 ∧ Swept e := by
  intro run
  have within : ∀ e ∈ run.1, dayOf e.input.now ∈ [10, 11, 12, 13] := by decide +kernel
  have swept : ChargedOn run.1 12 := by
    unfold ChargedOn
    decide +kernel
  refine (maps_bounded_iff (Machine.Run.start.play _ (by decide +kernel))).mpr ?_
  rintro _ _ ⟨e, member, _, rfl⟩ ⟨later, last, _, rfl⟩ apart
  have first := within e member
  have final := within later last
  simp only [List.mem_cons, List.not_mem_nil, or_false] at first final
  have same : dayOf e.input.now = 10 := by omega
  rwa [same]

end LetsEmbed.Account
