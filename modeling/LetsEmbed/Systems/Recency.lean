import Mathlib.Logic.Function.Basic

/-! A log of keyed events kept in buckets by period. Looking into the current
bucket and the one before decides exactly whether a key was logged less than
one period ago, while older buckets may be dropped at any time. -/

namespace Systems.Recency

variable {κ : Type*}

abbrev Buckets (κ : Type*) := Nat → Option (κ → Option Nat)

def Buckets.time (buckets : Buckets κ) (period : Nat) (key : κ) : Option Nat :=
  (buckets period).bind (· key)

/-- The buckets hold only logged times. This needs no clock order. -/
def Sound (log : κ → Nat → Prop) (buckets : Buckets κ) : Prop :=
  ∀ period key time, buckets.time period key = some time → log key time

/-- Sound buckets that still hold the latest time of every key logged in the
period of `last` or the one before. -/
structure Holds (width : Nat) (log : κ → Nat → Prop) (last : Nat) (buckets : Buckets κ) : Prop where
  sound : Sound log buckets
  past : ∀ key time, log key time → time ≤ last
  kept : ∀ key time, log key time → last / width ≤ time / width + 1 →
    ∃ latest, buckets.time (time / width) key = some latest ∧ time ≤ latest

theorem Holds.empty (width : Nat) (last : Nat) : Holds (κ := κ) width (fun _ _ => False) last fun _ => none where
  sound := by intro period key time found; cases found
  past := by intro key time logged; cases logged
  kept := by intro key time logged; cases logged

variable {width last now : Nat} {log : κ → Nat → Prop} {buckets forget : Buckets κ} {key : κ}

theorem Holds.later (holds : Holds width log last buckets) (le : last ≤ now) : Holds width log now buckets where
  sound := holds.sound
  past key time logged := Nat.le_trans (holds.past key time logged) le
  kept key time logged near :=
    holds.kept key time logged (Nat.le_trans (Nat.div_le_div_right le) near)

theorem Sound.mono {other : κ → Nat → Prop} (sound : Sound log buckets)
    (implies : ∀ key time, log key time → other key time) : Sound other buckets :=
  fun period key time found => implies key time (sound period key time found)

theorem Holds.congr {other : κ → Nat → Prop} (holds : Holds width log last buckets)
    (same : ∀ key time, log key time ↔ other key time) : Holds width other last buckets := by
  have equal : log = other := by funext key time; exact propext (same key time)
  exact equal ▸ holds

/-- Two lookups decide recency exactly. -/
theorem Holds.recent (holds : Holds width log now buckets) (positive : 0 < width) (full : width ≤ now) :
    ((∃ time, buckets.time (now / width) key = some time ∧ now < time + width) ∨
      (∃ time, buckets.time (now / width - 1) key = some time ∧ now < time + width)) ↔
    ∃ time, log key time ∧ now < time + width := by
  constructor
  · rintro (⟨time, found, near⟩ | ⟨time, found, near⟩)
    · exact ⟨time, holds.sound _ _ _ found, near⟩
    · exact ⟨time, holds.sound _ _ _ found, near⟩
  · rintro ⟨time, logged, near⟩
    have before := holds.past key time logged
    have low : now / width ≤ time / width + 1 := by
      rw [← Nat.add_div_right time positive]
      exact Nat.div_le_div_right (Nat.le_of_lt near)
    have high : time / width ≤ now / width := Nat.div_le_div_right before
    have started : 1 ≤ now / width := Nat.div_pos full positive
    obtain ⟨latest, found, le⟩ := holds.kept key time logged low
    rcases Nat.lt_or_ge (time / width) (now / width) with earlier | same
    · have yesterday : now / width - 1 = time / width := by omega
      exact .inr ⟨latest, by rw [yesterday]; exact found, by omega⟩
    · have today : now / width = time / width := Nat.le_antisymm same high
      exact .inl ⟨latest, by rw [today]; exact found, by omega⟩

theorem Sound.record [DecidableEq κ] (sound : Sound log buckets)
    (dropped : ∀ period, forget period = buckets period ∨ forget period = none) (current : Nat) :
    Sound (fun other time => log other time ∨ other = key ∧ time = now)
      (Function.update forget current
        (some (Function.update ((buckets current).getD fun _ => none) key (some now)))) := by
  intro period other time found
  rw [Buckets.time] at found
  by_cases today : period = current
  · subst today
    rw [Function.update_self, Option.bind_some] at found
    by_cases same : other = key
    · subst same
      rw [Function.update_self] at found
      exact .inr ⟨rfl, (Option.some.inj found).symm⟩
    · rw [Function.update_of_ne same] at found
      refine .inl (sound period other time ?_)
      rw [Buckets.time]
      cases stored : buckets period with
      | none => simp [stored] at found
      | some bucket => simpa [stored] using found
  · rw [Function.update_of_ne today] at found
    rcases dropped period with same | empty
    · rw [same] at found
      exact .inl (sound period other time found)
    · simp [empty] at found

theorem Holds.record [DecidableEq κ] (holds : Holds width log now buckets)
    (dropped : ∀ period, forget period = buckets period ∨
      forget period = none ∧ period ≠ now / width ∧ period + 1 ≠ now / width) :
    Holds width (fun other time => log other time ∨ other = key ∧ time = now) now
      (Function.update forget (now / width)
        (some (Function.update ((buckets (now / width)).getD fun _ => none) key (some now)))) where
  sound := holds.sound.record (fun period => (dropped period).imp_right And.left) (now / width)
  past := by
    rintro other time (logged | ⟨_, rfl⟩)
    · exact holds.past other time logged
    · exact Nat.le_refl _
  kept := by
    have today (other : κ) : Buckets.time (Function.update forget (now / width)
        (some (Function.update ((buckets (now / width)).getD fun _ => none) key (some now)))) (now / width) other =
        if other = key then some now else buckets.time (now / width) other := by
      unfold Buckets.time
      rw [Function.update_self, Option.bind_some]
      split
      next same => rw [same, Function.update_self]
      next different =>
        rw [Function.update_of_ne different]
        cases buckets (now / width) <;> rfl
    rintro other time (logged | ⟨rfl, rfl⟩) near
    · have before := holds.past other time logged
      obtain ⟨latest, found, le⟩ := holds.kept other time logged near
      by_cases current : time / width = now / width
      · rw [current, today]
        split
        · exact ⟨now, rfl, before⟩
        · exact ⟨latest, current ▸ found, le⟩
      · have earlier : time / width ≤ now / width := Nat.div_le_div_right before
        refine ⟨latest, ?_, le⟩
        rw [Buckets.time]
        rw [Function.update_of_ne current]
        rcases dropped (time / width) with same | ⟨_, _, old⟩
        · rw [same]; exact found
        · omega
    · exact ⟨time, by rw [today, if_pos rfl], Nat.le_refl _⟩

end Systems.Recency
