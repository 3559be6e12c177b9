import Mathlib.Algebra.Order.Ring.Int

/-! The proleptic Gregorian calendar, and positions in consecutive blocks of given
lengths. A day is counted by the years before it and the months before it. -/

namespace Systems

section Blocks
variable {length : Nat → Nat} {a b i j : Nat}

/-- The length of the first blocks together. -/
def before (length : Nat → Nat) : Nat → Nat
  | 0 => 0
  | n + 1 => before length n + length n

theorem before_le (le : a ≤ b) : before length a ≤ before length b := by
  induction le with
  | refl => exact Nat.le_refl _
  | step _ ih => exact Nat.le_trans ih (Nat.le_add_right ..)

theorem before_lt (inside : i < length a) (less : a < b) : before length a + i < before length b :=
  calc before length a + i < before length (a + 1) := Nat.add_lt_add_left inside _
    _ ≤ before length b := before_le less

/-- A position determines its block and its place there. -/
theorem before_inj (inside : i < length a) (inside' : j < length b) (same : before length a + i = before length b + j) :
    a = b ∧ i = j := by
  rcases Nat.lt_trichotomy a b with less | equal | greater
  · have := before_lt inside less
    omega
  · subst equal
    exact ⟨rfl, Nat.add_left_cancel same⟩
  · have := before_lt inside' greater
    omega

/-- The block a position is in, counted on from one, and the place there. -/
def locate (length : Nat → Nat) : (fuel block position : Nat) → Nat × Nat
  | 0, block, position => (block, position)
  | fuel + 1, block, position =>
    if position < length block then (block, position) else locate length fuel (block + 1) (position - length block)

theorem locate_before (length : Nat → Nat) (fuel block position : Nat) :
    before length (locate length fuel block position).1 + (locate length fuel block position).2 = before length block + position := by
  induction fuel generalizing block position with
  | zero => rfl
  | succ fuel ih =>
    rw [locate]
    split
    · rfl
    next beyond =>
      rw [ih, before]
      omega

theorem locate_inside {fuel block position : Nat} (reaches : before length block + position < before length (block + fuel)) :
    (locate length fuel block position).2 < length (locate length fuel block position).1 ∧
      (locate length fuel block position).1 < block + fuel := by
  induction fuel generalizing block position with
  | zero =>
    rw [Nat.add_zero] at reaches
    omega
  | succ fuel ih =>
    rw [locate]
    split
    next inside => exact ⟨inside, by omega⟩
    next beyond =>
      have shifted : block + 1 + fuel = block + (fuel + 1) := by omega
      rw [← shifted] at reaches ⊢
      apply ih
      rw [before]
      omega

end Blocks

namespace Calendar

def leap (year : Nat) : Bool := year % 4 = 0 && (year % 100 ≠ 0 || year % 400 = 0)

/-- Months are counted from zero here, and from one in dates. -/
def monthLength (year : Nat) : (month : Nat) → Nat
  | 1 => if leap year then 29 else 28
  | 3 | 5 | 8 | 10 => 30
  | _ => 31

def yearLength (year : Nat) : Nat := before (monthLength year) 12

def Exists (year month day : Nat) : Prop := 1 ≤ month ∧ month ≤ 12 ∧ 1 ≤ day ∧ day ≤ monthLength year (month - 1)

instance (year month day : Nat) : Decidable (Exists year month day) := inferInstanceAs (Decidable (_ ∧ _))

/-- Days since the first of January of the year zero. -/
def ordinal (year month day : Nat) : Nat := before yearLength year + (before (monthLength year) (month - 1) + (day - 1))

/-- Days since 1970-01-01. -/
def days (year month day : Nat) : Int := ordinal year month day - ordinal 1970 1 1

variable {year month day year' month' day' : Nat}

theorem monthLength_bounds (month : Nat) : 28 ≤ monthLength year month ∧ monthLength year month ≤ 31 := by
  unfold monthLength
  split
  · split <;> omega
  all_goals omega

theorem yearLength_eq : yearLength year = if leap year then 366 else 365 := by
  unfold yearLength
  simp only [before, monthLength]
  split <;> rfl

theorem place_lt (date : Exists year month day) : before (monthLength year) (month - 1) + (day - 1) < yearLength year := by
  obtain ⟨first, last, start, stop⟩ := date
  exact before_lt (by omega) (by omega)

theorem ordinal_inj (date : Exists year month day) (date' : Exists year' month' day')
    (same : ordinal year month day = ordinal year' month' day') : year = year' ∧ month = month' ∧ day = day' := by
  obtain ⟨sameYear, place⟩ := before_inj (place_lt date) (place_lt date') same
  subst sameYear
  obtain ⟨first, last, start, stop⟩ := date
  obtain ⟨first', last', start', stop'⟩ := date'
  obtain ⟨sameMonth, sameDay⟩ := before_inj (by omega) (by omega) place
  omega

/-- No month that is followed by another reaches into the last month of its year,
even with the days it lacks. -/
theorem place_short (first : 1 ≤ month) (last : month < 12) (day31 : day ≤ 31) :
    before (monthLength year) (month - 1) + (day - 1) + 29 ≤ yearLength year := by
  have length := @monthLength_bounds year (month - 1)
  have here : before (monthLength year) (month - 1) + monthLength year (month - 1) ≤ before (monthLength year) 11 :=
    @before_le (monthLength year) (month - 1 + 1) 11 (by omega)
  have december : yearLength year = before (monthLength year) 11 + 31 := rfl
  omega

theorem days_inj (date : Exists year month day) (date' : Exists year' month' day')
    (same : days year month day = days year' month' day') : year = year' ∧ month = month' ∧ day = day' :=
  ordinal_inj date date' (by unfold days at same; omega)

/-- A year has three hundred sixty-five days, and one more for each leap year before it. -/
theorem before_yearLength (year : Nat) :
    before yearLength year + (year + 99) / 100 = 365 * year + (year + 3) / 4 + (year + 399) / 400 := by
  induction year with
  | zero => rfl
  | succ year ih =>
    rw [before, yearLength_eq]
    unfold leap
    simp only [Bool.and_eq_true, Bool.or_eq_true, decide_eq_true_eq]
    split <;> omega

/-- The date of a day counted from the first of January of the year zero. -/
def civil (day : Nat) : Nat × Nat × Nat :=
  let (year, place) := locate yearLength (day / 365 + 1) 0 day
  let (month, rest) := locate (monthLength year) 12 0 place
  (year, month + 1, rest + 1)

theorem year_bound (day : Nat) : day < before yearLength (day / 365 + 1) := by
  have counted := before_yearLength (day / 365 + 1)
  omega

theorem civil_date (day : Nat) :
    Exists (civil day).1 (civil day).2.1 (civil day).2.2 ∧ ordinal (civil day).1 (civil day).2.1 (civil day).2.2 = day := by
  have whole := locate_before yearLength (day / 365 + 1) 0 day
  obtain ⟨inYear, _⟩ := @locate_inside yearLength (day / 365 + 1) 0 day (by rw [before]; simpa using year_bound day)
  rw [civil, Exists, ordinal]
  dsimp only
  generalize locate yearLength (day / 365 + 1) 0 day = found at whole inYear ⊢
  obtain ⟨year, place⟩ := found
  dsimp only at whole inYear ⊢
  have parts := locate_before (monthLength year) 12 0 place
  obtain ⟨inMonth, inside⟩ := @locate_inside (monthLength year) 12 0 place (by rw [before, Nat.zero_add, Nat.zero_add]; exact inYear)
  simp only [before, Nat.zero_add] at whole parts inside
  simp only [Nat.add_sub_cancel]
  omega

theorem civil_year {day : Nat} (bound : day < before yearLength 10000) : (civil day).1 < 10000 := by
  obtain ⟨_, same⟩ := civil_date day
  rw [ordinal] at same
  by_contra late
  have years := @before_le yearLength _ _ (Nat.le_of_not_lt late)
  omega

end Calendar
end Systems
