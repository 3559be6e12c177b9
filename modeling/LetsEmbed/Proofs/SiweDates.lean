import LetsEmbed.Proofs.SiweStamp
import LetsEmbed.Systems.Calendar
import Mathlib.Tactic.IntervalCases
import Mathlib.Tactic.Ring

/-! Which instant a date-time is read as, and which texts are read as one. Days are
numbered by a formula that also takes days a month does not have. -/

namespace LetsEmbed.Siwe
open Systems Text

def leapDay (year : Nat) : Nat := if Calendar.leap year then 1 else 0

theorem before_month (year : Nat) {month : Nat} (first : 1 ≤ month) (last : month ≤ 12) :
    before (Calendar.monthLength year) (month - 1) =
      if month ≤ 2 then 31 * (month - 1) else 59 + leapDay year + (153 * (month - 3) + 2) / 5 := by
  unfold leapDay
  interval_cases month
  case «1» => rfl
  case «2» => rfl
  all_goals
    simp only [before, Calendar.monthLength]
    cases Calendar.leap year <;> rfl

theorem leapDay_eq (year : Nat) : before Calendar.yearLength year + leapDay year + year / 100 = 365 * year + 1 + year / 4 + year / 400 := by
  have closed := Calendar.before_yearLength (year + 1)
  have length : Calendar.yearLength year = 365 + leapDay year := by
    rw [Calendar.yearLength_eq, leapDay]
    split <;> rfl
  rw [before, length] at closed
  omega

theorem epoch_years : before Calendar.yearLength 1970 = 719528 := by
  have closed := Calendar.before_yearLength 1970
  generalize before Calendar.yearLength 1970 = years at *
  omega

theorem epoch_ordinal : Calendar.ordinal 1970 1 1 = 719528 := by
  have months : before (Calendar.monthLength 1970) (1 - 1) = 0 := rfl
  rw [Calendar.ordinal, epoch_years, months]

/-- An era has as many days as its years, wherever it starts. -/
theorem era_days (y : Int) : y / 400 * 146097 + ((y - y / 400 * 400) * 365 + (y - y / 400 * 400) / 4 - (y - y / 400 * 400) / 100) =
    365 * y + y / 4 - y / 100 + y / 400 := by
  have fours : y / 4 = 100 * (y / 400) + (y - y / 400 * 400) / 4 := by omega
  have hundreds : y / 100 = 4 * (y / 400) + (y - y / 400 * 400) / 100 := by omega
  rw [fours, hundreds]
  ring

theorem daysFromCivil_eq {year month day : Nat} (first : 1 ≤ month) (last : month ≤ 12) (start : 1 ≤ day) :
    daysFromCivil year month day = Calendar.days year month day := by
  rw [daysFromCivil, Calendar.days, epoch_ordinal, Calendar.ordinal, before_month year first last]
  by_cases early : month ≤ 2
  · have closed := Calendar.before_yearLength year
    simp only [if_pos early, if_neg (Nat.not_lt.mpr early)]
    rw [← Int.add_assoc, era_days]
    generalize before Calendar.yearLength year = years at *
    omega
  · have closed := leapDay_eq year
    simp only [if_neg early, if_pos (Nat.lt_of_not_le early)]
    rw [← Int.add_assoc, era_days]
    generalize before Calendar.yearLength year = years at *
    generalize leapDay year = leap at *
    omega

namespace Stamp

def Dated (t : Stamp) : Prop := Calendar.Exists t.year.value t.month.value t.day.value

instance (t : Stamp) : Decidable t.Dated := inferInstanceAs (Decidable (Calendar.Exists ..))

/-- Seconds since 1970-01-01T00:00:00Z, without the fraction. -/
def instant (t : Stamp) : Int :=
  Calendar.days t.year.value t.month.value t.day.value * 86400 +
    (t.hour.value * 3600 + t.minute.value * 60 + t.second.value) - t.offset.secs

end Stamp

section Parse
variable {s : String} {t : Stamp}

theorem stamp_front (text : bytes s = ascii t.chars) : ascii t.front <+: bytes s := by
  rw [text, Stamp.chars, ascii_append]
  exact List.prefix_append ..

theorem stamp_numbers (text : bytes s = ascii t.chars) : num (bytes s) 0 4 = some t.year.value ∧
    num (bytes s) 5 7 = some t.month.value ∧ num (bytes s) 8 10 = some t.day.value ∧ num (bytes s) 11 13 = some t.hour.value ∧
    num (bytes s) 14 16 = some t.minute.value ∧ num (bytes s) 17 19 = some t.second.value := by
  obtain ⟨⟨year, month, day, hour, minute, second⟩, _⟩ := front_iff.mp (stamp_front text)
  have numeral {k i : Nat} (positive : 0 < k) (n : Numeral k) (here : ascii n.digits <+: (bytes s).drop i) :
      num (bytes s) i (i + k) = some n.value := (num_iff positive).mpr ⟨n, here, rfl⟩
  exact ⟨numeral (by decide) _ year, numeral (by decide) _ month, numeral (by decide) _ day, numeral (by decide) _ hour,
    numeral (by decide) _ minute, numeral (by decide) _ second⟩

theorem parse_stamp (text : bytes s = ascii t.chars) (ranged : t.Ranged) (first : 1 ≤ t.day.value) (last : t.day.value ≤ 31) :
    parseRfc3339Epoch s = if t.instant < 0 then none else some t.instant.toNat := by
  have tail : (bytes s).drop 19 = ascii (Stamp.fractionChars t.fraction ++ t.offset.chars) := by
    rw [text, Stamp.chars, ascii_append]
    exact List.drop_left' ((List.length_map _).trans front_length)
  have long : ¬(bytes s).length < 20 := by
    obtain ⟨c, rest, spelled, _⟩ := offset_first t.offset
    have length := congrArg List.length tail
    rw [ascii, List.length_map, List.length_append, List.length_drop, spelled, List.length_cons] at length
    omega
  obtain ⟨i, start, rest⟩ := offsetStart_complete tail
  have offset := offsetSecs_complete rest ranged.offset
  obtain ⟨year, month, day, hour, minute, second⟩ := stamp_numbers text
  obtain ⟨_, dash, dash', letter, colon, colon'⟩ := front_iff.mp (stamp_front text)
  have letters : (sep (bytes s) 10 'T' || sep (bytes s) 10 't') = true := by
    cases lower : t.lower with
    | false => exact Bool.or_eq_true_iff.mpr (.inl (by simpa [lower] using letter))
    | true => exact Bool.or_eq_true_iff.mpr (.inr (by simpa [lower] using letter))
  have fields : ¬(t.month.value < 1 ∨ 12 < t.month.value ∨ t.day.value < 1 ∨ 31 < t.day.value ∨ t.hour.value > 23 ∨
      t.minute.value > 59 ∨ t.second.value > 59) := by
    have := ranged.month
    have := ranged.time
    omega
  have days := @daysFromCivil_eq t.year.value _ _ ranged.month.1 ranged.month.2 first
  have seconds : Calendar.days t.year.value t.month.value t.day.value * 86400 +
      (t.hour.value * 3600 + t.minute.value * 60 + t.second.value : Nat) - t.offset.secs = t.instant := by
    unfold Stamp.instant
    omega
  simp only [parseRfc3339Epoch, if_neg long, year, month, day, hour, minute, second, dash, dash', letters, colon, colon',
    if_neg fields, start, offset, days, seconds, bind, Option.bind_some]
  exact if_neg (by decide)

/-- What is read is a date-time as a whole, of which only the length of its month is
not looked at. -/
theorem parse_sound {epoch : Nat} (read : parseRfc3339Epoch s = some epoch) :
    ∃ t : Stamp, bytes s = ascii t.chars ∧ t.Ranged ∧ 1 ≤ t.day.value ∧ t.day.value ≤ 31 ∧ t.instant = epoch := by
  rw [parseRfc3339Epoch] at read
  dsimp only at read
  split at read
  case isTrue => cases read
  obtain ⟨_, yearRead, read⟩ := Option.bind_eq_some_iff.mp read
  obtain ⟨_, monthRead, read⟩ := Option.bind_eq_some_iff.mp read
  obtain ⟨_, dayRead, read⟩ := Option.bind_eq_some_iff.mp read
  obtain ⟨_, hourRead, read⟩ := Option.bind_eq_some_iff.mp read
  obtain ⟨_, minuteRead, read⟩ := Option.bind_eq_some_iff.mp read
  obtain ⟨_, secondRead, read⟩ := Option.bind_eq_some_iff.mp read
  split at read
  case isTrue => cases read
  next separated =>
  split at read
  case isTrue => cases read
  next fields =>
  obtain ⟨i, start, read⟩ := Option.bind_eq_some_iff.mp read
  obtain ⟨_, offsetRead, read⟩ := Option.bind_eq_some_iff.mp read
  split at read
  case isTrue => cases read
  next late =>
  obtain ⟨year, yearHere, rfl⟩ := (num_iff (k := 4) (by decide)).mp yearRead
  obtain ⟨month, monthHere, rfl⟩ := (num_iff (k := 2) (by decide)).mp monthRead
  obtain ⟨day, dayHere, rfl⟩ := (num_iff (k := 2) (by decide)).mp dayRead
  obtain ⟨hour, hourHere, rfl⟩ := (num_iff (k := 2) (by decide)).mp hourRead
  obtain ⟨minute, minuteHere, rfl⟩ := (num_iff (k := 2) (by decide)).mp minuteRead
  obtain ⟨second, secondHere, rfl⟩ := (num_iff (k := 2) (by decide)).mp secondRead
  obtain ⟨fraction, tail⟩ := offsetStart_sound start
  obtain ⟨offset, rest, offsetRanged, rfl⟩ := offsetSecs_sound offsetRead
  rw [Bool.not_eq_true] at separated
  simp only [Bool.or_eq_false_iff, Bool.not_eq_false', Bool.and_eq_true, Bool.or_eq_true] at separated
  obtain ⟨⟨⟨dashes, letter⟩, colon⟩, colon'⟩ := separated
  obtain ⟨lower, here⟩ : ∃ lower, sep (bytes s) 10 (if lower then 't' else 'T') = true :=
    letter.elim (fun upper => ⟨false, upper⟩) fun small => ⟨true, small⟩
  let t : Stamp := ⟨year, month, day, lower, hour, minute, second, fraction, offset⟩
  have front : ascii t.front <+: bytes s :=
    front_iff.mpr ⟨⟨yearHere, monthHere, dayHere, hourHere, minuteHere, secondHere⟩, dashes.1, dashes.2, here, colon, colon'⟩
  have size : (ascii t.front).length = 19 := (List.length_map _).trans front_length
  have whole : bytes s = ascii t.chars := by
    have cut := List.prefix_iff_eq_take.mp front
    rw [size] at cut
    rw [Stamp.chars, ascii_append, ascii_append, ← rest, ← tail, cut, List.take_append_drop]
  have days := @daysFromCivil_eq year.value month.value day.value (by omega) (by omega) (by omega)
  have bounds : (1 ≤ month.value ∧ month.value ≤ 12) ∧ (hour.value ≤ 23 ∧ minute.value ≤ 59 ∧ second.value ≤ 59) ∧
      1 ≤ day.value ∧ day.value ≤ 31 := by omega
  refine ⟨t, whole, ⟨bounds.1, bounds.2.1, offsetRanged⟩, bounds.2.2.1, bounds.2.2.2, ?_⟩
  have value := Option.some.inj read
  rw [days] at value late
  rw [← value, Int.toNat_of_nonneg (Int.not_lt.mp late), Stamp.instant]
  push_cast
  rfl

/-- Every date-time of a day that exists is read as its instant, if that is not
before 1970. -/
theorem parse_dated (s : String) (t : Stamp) (text : s.toList = t.chars) (ranged : t.Ranged) (dated : t.Dated) :
    parseRfc3339Epoch s = if t.instant < 0 then none else some t.instant.toNat := by
  obtain ⟨_, _, first, last⟩ := dated
  have length := @Calendar.monthLength_bounds t.year.value (t.month.value - 1)
  exact parse_stamp (bytes_iff.mpr text) ranged first (last.trans length.2)

/-- A day that the month does not have, of a year that can be read. -/
def Overlong (s : String) : Prop :=
  ∃ t : Stamp, s.toList = t.chars ∧ t.Ranged ∧ Calendar.monthLength t.year.value (t.month.value - 1) < t.day.value ∧
    t.day.value ≤ 31 ∧ 1970 ≤ t.year.value

/-- What is accepted is a date-time of a day that exists. -/
def Sound (s : String) : Prop :=
  ∀ epoch, parseRfc3339Epoch s = some epoch → ∃ t : Stamp, s.toList = t.chars ∧ t.Ranged ∧ t.Dated

def SameTime (t t' : Stamp) : Prop :=
  t.hour.value = t'.hour.value ∧ t.minute.value = t'.minute.value ∧ t.second.value = t'.second.value ∧
    t.offset.secs = t'.offset.secs

def SameDate (t t' : Stamp) : Prop :=
  t.year.value = t'.year.value ∧ t.month.value = t'.month.value ∧ t.day.value = t'.day.value

/-- Two days at one time of the day are not read as one instant. -/
def Apart (s s' : String) : Prop :=
  ∀ t t' : Stamp, s.toList = t.chars → s'.toList = t'.chars → t.Ranged → t'.Ranged → SameTime t t' → ¬SameDate t t' →
    ∀ epoch, parseRfc3339Epoch s = some epoch → parseRfc3339Epoch s' ≠ some epoch

theorem sameDate_of_text {t' : Stamp} (text : s.toList = t.chars) (text' : s.toList = t'.chars) : SameDate t t' := by
  obtain ⟨year, month, day, _⟩ := stamp_numbers (bytes_iff.mpr text)
  obtain ⟨year', month', day', _⟩ := stamp_numbers (bytes_iff.mpr text')
  exact ⟨Option.some.inj (year.symm.trans year'), Option.some.inj (month.symm.trans month'),
    Option.some.inj (day.symm.trans day')⟩

theorem offset_bounds {o : Offset} (ranged : o.Ranged) : -86400 < o.secs ∧ o.secs < 86400 := by
  cases o with
  | zulu lower =>
    rw [Offset.secs]
    exact ⟨by decide, by decide⟩
  | shift negative hour minute =>
    obtain ⟨hours, minutes⟩ := ranged
    rw [Offset.secs]
    split <;> omega

/-- Of the days that do not exist, those from 1970 on are after the epoch and the
others before it. -/
theorem instant_overlong (ranged : t.Ranged)
    (overlong : Calendar.monthLength t.year.value (t.month.value - 1) < t.day.value) (last : t.day.value ≤ 31) :
    0 ≤ t.instant ↔ 1970 ≤ t.year.value := by
  have offset := offset_bounds ranged.offset
  have month := ranged.month
  have time := ranged.time
  have length := @Calendar.monthLength_bounds t.year.value (t.month.value - 1)
  rw [Stamp.instant, Calendar.days, epoch_ordinal, Calendar.ordinal]
  by_cases late : 1970 ≤ t.year.value
  · have years := @before_le Calendar.yearLength _ _ late
    rw [epoch_years] at years
    omega
  · have december : t.month.value ≠ 12 := by
      intro last
      rw [last] at overlong
      change 31 < _ at overlong
      omega
    have place := @Calendar.place_short t.year.value _ _ month.1 (by omega) last
    have years := @before_le Calendar.yearLength (t.year.value + 1) 1970 (by omega)
    rw [epoch_years, before] at years
    omega

theorem sound_iff (s : String) : Sound s ↔ ¬Overlong s := by
  constructor
  · intro sound ⟨t, text, ranged, overlong, last, late⟩
    have positive := (instant_overlong ranged overlong last).mpr late
    have read := parse_stamp (bytes_iff.mpr text) ranged (by omega) last
    rw [if_neg (Int.not_lt.mpr positive)] at read
    obtain ⟨t', text', _, dated⟩ := sound _ read
    obtain ⟨year, month, day⟩ := sameDate_of_text text text'
    have exists' := dated.2.2.2
    rw [← year, ← month, ← day] at exists'
    omega
  · intro sane epoch read
    obtain ⟨t, text, ranged, first, last, value⟩ := parse_sound read
    refine ⟨t, bytes_iff.mp text, ranged, ranged.month.1, ranged.month.2, first, ?_⟩
    by_contra overlong
    have late := (instant_overlong ranged (Nat.lt_of_not_le overlong) last).mp (by omega)
    exact sane ⟨t, bytes_iff.mp text, ranged, Nat.lt_of_not_le overlong, last, late⟩

theorem apart_of_sound {s' : String} (sound : Sound s) (sound' : Sound s') : Apart s s' := by
  intro t t' text text' ranged ranged' time date epoch read read'
  have dated {s : String} {t : Stamp} (sound : Sound s) (text : s.toList = t.chars) (ranged : t.Ranged)
      (read : parseRfc3339Epoch s = some epoch) : t.Dated ∧ t.instant = epoch := by
    obtain ⟨u, text', _, dated⟩ := sound _ read
    obtain ⟨year, month, day⟩ := sameDate_of_text text text'
    have here : t.Dated := by
      rw [Stamp.Dated, year, month, day]
      exact dated
    have value := parse_dated s t text ranged here
    rw [read] at value
    split at value
    · cases value
    · have := Option.some.inj value
      exact ⟨here, by omega⟩
  obtain ⟨here, value⟩ := dated sound text ranged read
  obtain ⟨here', value'⟩ := dated sound' text' ranged' read'
  obtain ⟨hours, minutes, seconds, offsets⟩ := time
  refine date (Calendar.days_inj here here' ?_)
  unfold Stamp.instant at value value'
  omega

/-- Reading is sound exactly for the texts that do not name a day past the end of its
month. -/
theorem dates_sound_iff (s s' : String) : Sound s ∧ Sound s' ∧ Apart s s' ↔ ¬Overlong s ∧ ¬Overlong s' := by
  rw [← sound_iff, ← sound_iff]
  exact ⟨fun sound => ⟨sound.1, sound.2.1⟩, fun sound => ⟨sound.1, sound.2, apart_of_sound sound.1 sound.2⟩⟩

end Parse

section Example

def numeral (width n : Nat) : Numeral width where
  digits := (Radix.spelled 10 width n).map Nat.digitChar
  size := (List.length_map _).trans Radix.length_spelled
  decimal := by
    intro c member
    obtain ⟨digit, spelled, rfl⟩ := List.mem_map.mp member
    have every : ∀ digit < 10, (toDigit 10 (Nat.digitChar digit)).isSome = true := by decide
    exact every digit (Radix.spelled_lt (by decide) digit spelled)

def midnight (year month day : Nat) : Stamp :=
  ⟨numeral 4 year, numeral 2 month, numeral 2 day, false, numeral 2 0, numeral 2 0, numeral 2 0, none, .zulu false⟩

def leapStamp : Stamp :=
  ⟨numeral 4 2024, numeral 2 2, numeral 2 29, true, numeral 2 23, numeral 2 59, numeral 2 59, some ⟨1, numeral 2 25⟩,
    .shift true (numeral 2 5) (numeral 2 30)⟩

theorem parse_dated_leap : parseRfc3339Epoch "2024-02-29t23:59:59.25-05:30" = some 1_709_270_999 := by
  have dated := parse_dated "2024-02-29t23:59:59.25-05:30" leapStamp (by rw [String.toList_ofList]; decide +kernel)
    ⟨by decide +kernel, by decide +kernel, by decide +kernel, by decide +kernel⟩ (by decide +kernel)
  have instant : leapStamp.instant = 1_709_270_999 := by decide +kernel
  rw [instant, if_neg (by decide)] at dated
  exact dated

/-- The thirtieth of February is read as the second of March. -/
theorem february_overruns :
    ¬Sound "2026-02-30T00:00:00Z" ∧ ¬Apart "2026-02-30T00:00:00Z" "2026-03-02T00:00:00Z" := by
  have text : "2026-02-30T00:00:00Z".toList = (midnight 2026 2 30).chars := by rw [String.toList_ofList]; decide +kernel
  have text' : "2026-03-02T00:00:00Z".toList = (midnight 2026 3 2).chars := by rw [String.toList_ofList]; decide +kernel
  have ranged : (midnight 2026 2 30).Ranged := ⟨by decide +kernel, by decide +kernel, trivial⟩
  have ranged' : (midnight 2026 3 2).Ranged := ⟨by decide +kernel, by decide +kernel, trivial⟩
  constructor
  · rw [sound_iff, Classical.not_not]
    exact ⟨_, text, ranged, by decide +kernel, by decide +kernel, by decide +kernel⟩
  · intro apart
    have other : ¬SameDate (midnight 2026 2 30) (midnight 2026 3 2) := fun same => absurd same.2.1 (by decide +kernel)
    have time : SameTime (midnight 2026 2 30) (midnight 2026 3 2) := ⟨rfl, rfl, rfl, rfl⟩
    exact apart _ _ text text' ranged ranged' time other 1_772_409_600 (by decide +kernel) (by decide +kernel)

end Example
end LetsEmbed.Siwe
