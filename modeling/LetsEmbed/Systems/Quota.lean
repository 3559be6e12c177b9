import Mathlib.Algebra.Order.Ring.Int

/-! A quota counter of a tumbling window that may also be reset at will. What
an interval can draw is the quota of each window it meets and one more quota
for each reset. -/

namespace Systems

structure Meter where
  start : Nat
  used : Int

variable {width : Nat} {limit : Int} {since now : Nat} {meter : Meter} {drawn : Int} {resets : Nat}

/-- Units drawn since `since`, against the windows closed and the resets made
meanwhile. Every closed window but the first spans a whole width. -/
structure Within (width : Nat) (limit : Int) (since : Nat) (meter : Meter) (drawn : Int) (resets : Nat) : Prop where
  used : 0 ≤ meter.used ∧ meter.used ≤ limit
  bound : ∃ closed : Nat, drawn ≤ limit * (resets + closed) + meter.used ∧
    (closed = 0 ∨ width * (closed - 1) + since < meter.start)
  current : 0 < drawn → since < meter.start + width

theorem Within.begin (used : 0 ≤ meter.used ∧ meter.used ≤ limit) : Within width limit since meter 0 0 where
  used := used
  bound := ⟨0, by simpa using used.1, .inl rfl⟩
  current := fun positive => absurd positive (by decide)

private theorem charge_one {resets closed : Nat} (bound : drawn ≤ limit * (resets + closed) + meter.used)
    (used : meter.used ≤ limit) : drawn ≤ limit * (resets + (closed + 1 : Nat)) + 0 := by
  have spread : limit * ((resets : Int) + (closed + 1 : Nat)) = limit * (resets + closed) + limit := by
    rw [Int.natCast_add, ← Int.add_assoc, Int.mul_add limit (_ + _), Int.natCast_one, Int.mul_one]
  omega

theorem Within.roll (within : Within width limit since meter drawn resets) (elapsed : meter.start + width ≤ now) :
    Within width limit since ⟨now, 0⟩ drawn resets where
  used := ⟨Int.le_refl 0, Int.le_trans within.used.1 within.used.2⟩
  current positive := by
    have earlier := within.current positive
    change since < now + width
    omega
  bound := by
    have nonneg : 0 ≤ limit := Int.le_trans within.used.1 within.used.2
    by_cases positive : 0 < drawn
    · have earlier := within.current positive
      obtain ⟨closed, bound, spans⟩ := within.bound
      refine ⟨closed + 1, charge_one bound within.used.2, .inr ?_⟩
      change width * closed + since < now
      rcases spans with rfl | spans
      · omega
      · cases closed with
        | zero => omega
        | succ closed =>
          rw [Nat.mul_succ]
          simp only [Nat.add_sub_cancel] at spans
          omega
    · refine ⟨0, ?_, .inl rfl⟩
      have quotas : 0 ≤ limit * (resets + (0 : Nat)) := Int.mul_nonneg nonneg (by omega)
      change drawn ≤ limit * (resets + (0 : Nat)) + 0
      omega

theorem Within.draw {units : Int} (within : Within width limit since meter drawn resets) (cost : 0 ≤ units)
    (fits : meter.used + units ≤ limit) (reached : since ≤ now) (opened : now < meter.start + width) :
    Within width limit since ⟨meter.start, meter.used + units⟩ (drawn + units) resets where
  used := ⟨Int.add_nonneg within.used.1 cost, fits⟩
  current _ := Nat.lt_of_le_of_lt reached opened
  bound := by
    obtain ⟨closed, bound, spans⟩ := within.bound
    exact ⟨closed, by change _ ≤ _ + (meter.used + units); omega, spans⟩

theorem Within.reset (within : Within width limit since meter drawn resets) (reached : since ≤ now)
    (started : meter.start ≤ now) (positive : 0 < width) :
    Within width limit since ⟨now, 0⟩ drawn (resets + 1) where
  used := ⟨Int.le_refl 0, Int.le_trans within.used.1 within.used.2⟩
  current _ := by change since < now + width; omega
  bound := by
    obtain ⟨closed, bound, spans⟩ := within.bound
    refine ⟨closed, ?_, spans.imp_right fun spans => Nat.lt_of_lt_of_le spans started⟩
    have one := charge_one bound within.used.2
    have moved : (resets : Int) + (closed + 1 : Nat) = (resets + 1 : Nat) + closed := by omega
    rwa [moved] at one

theorem Within.total {upTo : Nat} (within : Within width limit since meter drawn resets) (positive : 0 < width)
    (started : meter.start ≤ upTo) :
    drawn ≤ limit * (((upTo - since + width - 1) / width : Nat) + 1 + resets) := by
  obtain ⟨closed, bound, spans⟩ := within.bound
  have nonneg : 0 ≤ limit := Int.le_trans within.used.1 within.used.2
  have few : closed ≤ (upTo - since + width - 1) / width := by
    rcases spans with rfl | spans
    · exact Nat.zero_le _
    · cases closed with
      | zero => exact Nat.zero_le _
      | succ closed =>
        rw [Nat.le_div_iff_mul_le positive, Nat.succ_mul, Nat.mul_comm]
        simp only [Nat.add_sub_cancel] at spans
        omega
  have one := charge_one bound within.used.2
  have fewer : limit * (resets + (closed + 1 : Nat)) ≤
      limit * (((upTo - since + width - 1) / width : Nat) + 1 + resets) :=
    Int.mul_le_mul_of_nonneg_left (by omega) nonneg
  omega

end Systems
