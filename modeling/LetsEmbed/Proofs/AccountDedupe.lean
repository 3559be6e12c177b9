import LetsEmbed.Proofs.AccountHistory
import LetsEmbed.Systems.Recency

/-! The `seen:{day}` maps are a faithful index of the charges of the last day:
the lookup of `charge` answers exactly whether the path was charged less than
`DEDUPE_WINDOW_SECS` ago, whatever maps were overwritten or deleted since. -/

namespace LetsEmbed.Account
open Config Rust Systems

def ChargedFor (path : String) (e : Event) : Prop :=
  (∃ kind, e.input.op = .charge ⟨path, kind⟩) ∧ e.output.charged = true

def chargeLog (past : List Event) (path : String) (time : Nat) : Prop :=
  ∃ e ∈ past, ChargedFor path e ∧ e.input.now = time

theorem chargeLog_cons {e : Event} {past : List Event} {path : String} {time : Nat} :
    chargeLog (e :: past) path time ↔ chargeLog past path time ∨ ChargedFor path e ∧ e.input.now = time :=
  (List.exists_mem_cons_iff _ e past).trans or_comm

/-- Only a charge answered charged:true writes the day maps. -/
theorem step_seen (s : Storage) (i : Input) :
    ((step s i).1.charged = false ∧ (step s i).2.seen = s.seen) ∨
    ∃ req balance, i.op = .charge req ∧ (step s i).1.charged = true ∧
      (step s i).2.seen = (recordView (ensureInit s) i.now req.path balance).seen := by
  obtain ⟨now, op⟩ := i
  cases op with
  | init address => exact .inl ⟨rfl, ensureInit_seen s⟩
  | charge req =>
    have outcome := charge_outcome s now req
    change ((charge s now req).1.charged = false ∧ (charge s now req).2.seen = s.seen) ∨
      ∃ other balance, Op.charge req = .charge other ∧ (charge s now req).1.charged = true ∧
        (charge s now req).2.seen = (recordView (ensureInit s) now other.path balance).seen
    generalize charge s now req = result at outcome ⊢
    cases outcome with
    | banned | deduped | refused => exact .inl ⟨rfl, ensureInit_seen s⟩
    | recorded => exact .inr ⟨req, _, rfl, rfl, withWindow_seen ..⟩
  | credit req =>
    simp only [step, credit]
    split <;> exact .inl ⟨rfl, rfl⟩
  | status | ban => exact .inl ⟨rfl, rfl⟩
  | subscribe planId =>
    have outcome := subscribe_outcome s now planId
    refine .inl ?_
    change (subscribe s now planId).1.charged = false ∧ (subscribe s now planId).2.seen = s.seen
    generalize subscribe s now planId = result at outcome ⊢
    cases outcome <;> exact ⟨rfl, rfl⟩
  | unsubscribe disarmed => exact .inl ⟨rfl, (unsubscribe_frame s now disarmed).2.2.1⟩
  | alarm =>
    have outcome := alarm_outcome s now
    refine .inl ?_
    change (alarm s now).1.charged = false ∧ (alarm s now).2.seen = s.seen
    generalize alarm s now = result at outcome ⊢
    cases outcome <;> exact ⟨rfl, rfl⟩

/-- The horizon deletion never reaches the two maps the dedupe looks at. -/
theorem horizon_old (day period : Nat) (dropped : period = u64Sub day 2) : period ≠ day ∧ period + 1 ≠ day := by
  unfold u64Sub at dropped
  split at dropped <;> omega

def forgetOld (s : Storage) (day : Nat) : Recency.Buckets String :=
  if (s.seen day).isNone then Function.update s.seen (u64Sub day 2) none else s.seen

theorem forgetOld_cases (s : Storage) (day period : Nat) : forgetOld s day period = s.seen period ∨
    forgetOld s day period = none ∧ period ≠ day ∧ period + 1 ≠ day := by
  unfold forgetOld
  split
  · by_cases dropped : period = u64Sub day 2
    · exact .inr ⟨by rw [dropped, Function.update_self], horizon_old _ _ dropped⟩
    · exact .inl (Function.update_of_ne dropped _ _)
  · exact .inl rfl

theorem step_logged (past : List Event) (s : Storage) (i : Input) :
    ((∀ path time, chargeLog (account.event s i :: past) path time ↔ chargeLog past path time) ∧
      (step s i).2.seen = s.seen) ∨
    ∃ key, (∀ path time, chargeLog (account.event s i :: past) path time ↔
        chargeLog past path time ∨ path = key ∧ time = i.now) ∧
      (step s i).2.seen = Function.update (forgetOld s (i.now / dedupeWindowSecs)) (i.now / dedupeWindowSecs)
        (some (Function.update ((s.seen (i.now / dedupeWindowSecs)).getD fun _ => none) key (some i.now))) := by
  rcases step_seen s i with ⟨uncharged, same⟩ | ⟨req, balance, charge, charged, seen⟩
  · refine .inl ⟨fun path time => chargeLog_cons.trans ?_, same⟩
    have silent : ¬ ChargedFor path (account.event s i) := fun h => by
      have output : (step s i).1.charged = true := h.2
      simp [uncharged] at output
    simp [silent]
  · refine .inr ⟨req.path, fun path time => ?_, ?_⟩
    · rw [chargeLog_cons]
      have only : ChargedFor path (account.event s i) ↔ path = req.path := by
        constructor
        · rintro ⟨⟨kind, same⟩, _⟩
          have equal := charge.symm.trans same
          cases equal
          rfl
        · rintro rfl
          exact ⟨⟨req.kind, charge⟩, charged⟩
      rw [only]
      exact Iff.or Iff.rfl (and_congr_right fun _ => eq_comm)
    · rw [seen]
      simp only [recordView, ensureInit_seen]
      rfl

theorem indexed_step {past : List Event} {s : Storage} {i : Input}
    (holds : Recency.Holds dedupeWindowSecs (chargeLog past) i.now s.seen) :
    Recency.Holds dedupeWindowSecs (chargeLog (account.event s i :: past)) i.now (step s i).2.seen := by
  rcases step_logged past s i with ⟨log, same⟩ | ⟨key, log, seen⟩
  · rw [same]
    exact holds.congr fun path time => (log path time).symm
  · rw [seen]
    exact (holds.record (forgetOld_cases s _)).congr fun path time => (log path time).symm

/-- Whatever the clock did, a path found in a map was charged at that time. -/
theorem run_seenSound {guard : Guard} {past : List Event} {s : Storage} (run : account.Run guard {} past s) :
    Recency.Sound (chargeLog past) s.seen := by
  apply run.invariant (fun past s => Recency.Sound (chargeLog past) s.seen)
  · intro period key time found
    cases found
  · intro past s i _ _ sound
    change Recency.Sound (chargeLog (account.event s i :: past)) (step s i).2.seen
    rcases step_logged past s i with ⟨log, same⟩ | ⟨key, log, seen⟩
    · rw [same]
      exact sound.mono fun path time => (log path time).mpr
    · rw [seen]
      exact (sound.record (fun period => (forgetOld_cases s _ period).imp_right And.left) _).mono
        fun path time => (log path time).mpr

theorem run_indexed {past : List Event} {s : Storage} (run : account.Run Ordered {} past s) :
    Recency.Holds dedupeWindowSecs (chargeLog past) (clock past) s.seen := by
  apply run.invariant (fun past s => Recency.Holds dedupeWindowSecs (chargeLog past) (clock past) s.seen)
  · exact (Recency.Holds.empty dedupeWindowSecs 0).congr fun path time => by simp [chargeLog]
  · exact fun _ ordered holds => indexed_step (holds.later (clock_le ordered))

theorem after_cutoff {now time : Nat} (full : dedupeWindowSecs ≤ now) :
    time > now - dedupeWindowSecs ↔ now < time + dedupeWindowSecs := by omega

theorem seenRecently_iff {s : Storage} {now : Nat} {path : String} (full : dedupeWindowSecs ≤ now) :
    seenRecently s now path = true ↔
      (∃ time, Recency.Buckets.time s.seen (now / dedupeWindowSecs) path = some time ∧
        now < time + dedupeWindowSecs) ∨
      (∃ time, Recency.Buckets.time s.seen (now / dedupeWindowSecs - 1) path = some time ∧
        now < time + dedupeWindowSecs) := by
  have day : now / 86_400 = now / dedupeWindowSecs := rfl
  have started : 1 ≤ now / dedupeWindowSecs := Nat.div_pos full (by decide)
  have lookup (map : Option SeenMap) : ((map.getD fun _ => none) path).any
        (fun firstSeen => decide (firstSeen > now - dedupeWindowSecs)) = true ↔
      ∃ time, map.bind (· path) = some time ∧ now < time + dedupeWindowSecs := by
    cases map with
    | none => simp
    | some map =>
      cases found : map path with
      | none => simp [found]
      | some time =>
        simp only [after_cutoff full, Option.getD_some, found, Option.any_some, decide_eq_true_eq,
          Option.bind_some, Option.some.injEq, exists_eq_left']
  unfold seenRecently isRecentView
  simp only [List.any_cons, List.any_nil, Bool.or_false, Bool.or_eq_true, lookup]
  rw [day, u64Sub_of_le started]
  exact Iff.rfl

theorem charge_deduped_iff {s : Storage} {now : Nat} {req : ChargeReq} (served : s.isBanned = false) :
    (∃ resp, (charge s now req).1 = .charge 200 resp ∧ resp.charged = false) ↔
      seenRecently s now req.path = true := by
  have lookup : seenRecently (ensureInit s) now req.path = seenRecently s now req.path := by
    simp only [seenRecently, ensureInit_seen]
  have outcome := charge_outcome s now req
  generalize charge s now req = result at outcome ⊢
  cases outcome with
  | banned suspended => simp [served] at suspended
  | deduped _ recent => exact iff_of_true ⟨_, rfl, rfl⟩ (lookup ▸ recent)
  | refused _ fresh => exact iff_of_false (by simp) (by simp [← lookup, fresh])
  | recorded _ fresh => exact iff_of_false (by simp [Window.answer, Window.resp]) (by simp [← lookup, fresh])

theorem seenRecently_iff_charged {past : List Event} {s : Storage} {now : Nat} {path : String}
    (run : account.Run Ordered {} past s) (later : ∀ e ∈ past, e.input.now ≤ now) (full : dedupeWindowSecs ≤ now) :
    seenRecently s now path = true ↔ ∃ e ∈ past, ChargedFor path e ∧ now - e.input.now < dedupeWindowSecs := by
  have holds := (run_indexed run).later (clock_le later)
  rw [seenRecently_iff full, holds.recent (by decide) full]
  constructor
  · rintro ⟨_, ⟨e, member, charged, rfl⟩, near⟩
    exact ⟨e, member, charged, by have := later e member; omega⟩
  · rintro ⟨e, member, charged, near⟩
    exact ⟨_, ⟨e, member, charged, rfl⟩, by have := later e member; omega⟩

/-- Over whole runs, a charge is free exactly when its path was charged less
than `DEDUPE_WINDOW_SECS` before. -/
theorem dedupe_exact {past : List Event} {s : Storage} {now : Nat} {req : ChargeReq}
    (run : account.Run Ordered {} past s) (later : ∀ e ∈ past, e.input.now ≤ now)
    (days : 2 * 86_400 ≤ now) (served : s.isBanned = false) :
    (∃ resp, (charge s now req).1 = .charge 200 resp ∧ resp.charged = false) ↔
      ∃ e ∈ past, ChargedFor req.path e ∧ now - e.input.now < dedupeWindowSecs := by
  have full : dedupeWindowSecs ≤ now := Nat.le_trans (by decide) days
  rw [charge_deduped_iff served]
  exact seenRecently_iff_charged run later full

/-- Charged just before midnight, repeated just after, and charged again one
full day later. -/
theorem dedupe_exact_midnight :
    let early : Input := ⟨10 * 86_400 - 1, .charge ⟨"/images/a.webp", .image⟩⟩
    (∃ resp, (charge (account.next {} early) (10 * 86_400) ⟨"/images/a.webp", .image⟩).1 = .charge 200 resp ∧
      resp.charged = false) ∧
    ¬ ∃ resp, (charge (account.next {} early) (11 * 86_400 - 1) ⟨"/images/a.webp", .image⟩).1 =
      .charge 200 resp ∧ resp.charged = false := by
  intro early
  have run : account.Run Ordered {} [account.event {} early] (account.next {} early) :=
    .step .start (by simp [Ordered])
  have times (now : Nat) (le : 10 * 86_400 - 1 ≤ now) :
      ∀ e ∈ [account.event {} early], e.input.now ≤ now := by
    intro e member
    rw [List.mem_singleton.mp member]
    exact le
  have charged : ChargedFor "/images/a.webp" (account.event {} early) := ⟨⟨.image, rfl⟩, by decide⟩
  refine ⟨(dedupe_exact run (times _ (by decide)) (by decide) (by decide)).mpr
    ⟨_, List.mem_singleton.mpr rfl, charged, by decide⟩, fun free => ?_⟩
  obtain ⟨e, member, _, near⟩ :=
    (dedupe_exact run (times _ (by decide)) (by decide) (by decide)).mp free
  rw [List.mem_singleton.mp member] at near
  exact absurd near (by decide)

end LetsEmbed.Account
