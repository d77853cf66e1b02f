import Mathlib.Algebra.Order.Ring.Int
import Mathlib.Algebra.Order.Group.Unbundled.Int

/-!
# A lenient Gregorian calendar

`java.util.Calendar` in lenient mode, for a zone whose offset does not change: a
field that is set overwrites the field of the time, and the time is computed from
the fields when it is asked for. Days are counted from 1970-01-01; the fields are
those of a day within a week, of the weeks and of the time of day.
-/

namespace OpenDelta.Gregorian

/-! ## Years and months -/

/-- January 1. -/
def firstOfYear (y : Int) : Int := 365 * (y - 1) + (y - 1) / 4 - (y - 1) / 100 + (y - 1) / 400 - 719162

def isLeap (y : Int) : Bool := y % 4 == 0 && (y % 100 != 0 || y % 400 == 0)

/-- The year of a day, by the cycles of 400, 100, 4 and 1 years. -/
def year (day : Int) : Int :=
  let d0 := day + 719162
  let n400 := d0 / 146097
  let d1 := d0 % 146097
  let n100 := d1 / 36524
  let d2 := d1 % 36524
  let n4 := d2 / 1461
  let n1 := d2 % 1461 / 365
  let y := 400 * n400 + 100 * n100 + 4 * n4 + n1
  if n100 = 4 ∨ n1 = 4 then y else y + 1

/-- The days of a year before each of its months. -/
def daysBeforeMonths (leap : Bool) : List Int :=
  let extra := if leap then 1 else 0
  [0, 31, 59 + extra, 90 + extra, 120 + extra, 151 + extra, 181 + extra, 212 + extra, 243 + extra, 273 + extra,
    304 + extra, 334 + extra]

/-- The first day of the month of a day. -/
def firstOfMonth (day : Int) : Int :=
  let begun := (daysBeforeMonths (isLeap (year day))).filter (firstOfYear (year day) + · ≤ day)
  firstOfYear (year day) + begun.getLastD 0

theorem firstOfYear_succ (y : Int) : firstOfYear y + 365 ≤ firstOfYear (y + 1) ∧ firstOfYear (y + 1) ≤ firstOfYear y + 366 := by
  unfold firstOfYear
  omega

/-- The years within a cycle. -/
theorem firstOfYear_cycles {a b c d : Int} (hb : 0 ≤ b ∧ b ≤ 3) (hc : 0 ≤ c ∧ c ≤ 24) (hd : 0 ≤ d ∧ d ≤ 3) :
    firstOfYear (400 * a + 100 * b + 4 * c + d + 1) = 146097 * a + 36524 * b + 1461 * c + 365 * d - 719162 := by
  have fours : (400 * a + 100 * b + 4 * c + d) / 4 = 100 * a + 25 * b + c := by omega
  have hundreds : (400 * a + 100 * b + 4 * c + d) / 100 = 4 * a + b := by omega
  have cycles : (400 * a + 100 * b + 4 * c + d) / 400 = a := by omega
  rw [firstOfYear, Int.add_sub_cancel, fours, hundreds, cycles]
  omega

theorem year_bounds (day : Int) : firstOfYear (year day) ≤ day ∧ day < firstOfYear (year day + 1) := by
  let d0 := day + 719162
  let a := d0 / 146097
  let d1 := d0 % 146097
  let b := d1 / 36524
  let d2 := d1 % 36524
  let c := d2 / 1461
  let d3 := d2 % 1461
  let d := d3 / 365
  have split400 : d0 = 146097 * a + d1 := (Int.mul_ediv_add_emod d0 146097).symm
  have split100 : d1 = 36524 * b + d2 := (Int.mul_ediv_add_emod d1 36524).symm
  have split4 : d2 = 1461 * c + d3 := (Int.mul_ediv_add_emod d2 1461).symm
  have split1 : d3 = 365 * d + d3 % 365 := (Int.mul_ediv_add_emod d3 365).symm
  have below400 : 0 ≤ d1 ∧ d1 < 146097 := ⟨Int.emod_nonneg _ (by decide), Int.emod_lt_of_pos _ (by decide)⟩
  have below100 : 0 ≤ d2 ∧ d2 < 36524 := ⟨Int.emod_nonneg _ (by decide), Int.emod_lt_of_pos _ (by decide)⟩
  have below4 : 0 ≤ d3 ∧ d3 < 1461 := ⟨Int.emod_nonneg _ (by decide), Int.emod_lt_of_pos _ (by decide)⟩
  have below1 : 0 ≤ d3 % 365 ∧ d3 % 365 < 365 := ⟨Int.emod_nonneg _ (by decide), Int.emod_lt_of_pos _ (by decide)⟩
  have start : d0 = day + 719162 := rfl
  have computed : year day = if b = 4 ∨ d = 4 then 400 * a + 100 * b + 4 * c + d else 400 * a + 100 * b + 4 * c + d + 1 := rfl
  have next := firstOfYear_succ (year day)
  clear_value d0 a d1 b d2 c d3 d
  by_cases lastOf400 : b = 4
  · have last : year day = 400 * a + 100 * 3 + 4 * 24 + 3 + 1 := by rw [computed, if_pos (.inl lastOf400)]; omega
    have following : year day + 1 = 400 * (a + 1) + 100 * 0 + 4 * 0 + 0 + 1 := by omega
    rw [following, firstOfYear_cycles (by decide) (by decide) (by decide), last,
      firstOfYear_cycles (by decide) (by decide) (by decide)]
    omega
  · by_cases lastOf4 : d = 4
    · have last : year day = 400 * a + 100 * b + 4 * c + 3 + 1 := by rw [computed, if_pos (.inr lastOf4)]; omega
      have following : year day + 1 = 400 * a + 100 * b + 4 * (c + 1) + 0 + 1 := by omega
      rw [following, firstOfYear_cycles (by omega) (by omega) (by decide), last,
        firstOfYear_cycles (by omega) (by omega) (by decide)]
      omega
    · have within : year day = 400 * a + 100 * b + 4 * c + d + 1 := by rw [computed, if_neg (by omega)]
      have first := firstOfYear_cycles (a := a) (b := b) (c := c) (d := d) (by omega) (by omega) (by omega)
      rw [← within] at first
      omega

/-! ## Weeks -/

/-- Sunday is 1; 1970-01-01 was a Thursday. -/
def dayOfWeek (day : Int) : Int := (day + 4) % 7 + 1

/-- The last day up to this one that is that day of the week. -/
def onOrBefore (day dow : Int) : Int := day - (day + 5 - dow) % 7

theorem onOrBefore_bounds (day dow : Int) : onOrBefore day dow ≤ day ∧ day < onOrBefore day dow + 7 := by
  unfold onOrBefore
  omega

theorem dayOfWeek_onOrBefore (day : Int) {dow : Int} (real : 1 ≤ dow ∧ dow ≤ 7) : dayOfWeek (onOrBefore day dow) = dow := by
  unfold dayOfWeek onOrBefore
  omega

/-- Within seven days a day of the week comes once. -/
theorem onOrBefore_eq {day d dow : Int} (within : d ≤ day ∧ day < d + 7) (same : dayOfWeek d = dow) :
    onOrBefore day dow = d := by
  unfold dayOfWeek at same
  unfold onOrBefore
  omega

theorem onOrBefore_add_weeks (day dow k : Int) : onOrBefore (day + 7 * k) dow = onOrBefore day dow + 7 * k := by
  unfold onOrBefore
  omega

/-- What a locale says about weeks, and the zone. -/
structure Region where
  zoneOffset : Int
  firstDayOfWeek : Int
  minimalDaysInFirstWeek : Int
  firstDay_range : 1 ≤ firstDayOfWeek ∧ firstDayOfWeek ≤ 7
  minimalDays_range : 1 ≤ minimalDaysInFirstWeek ∧ minimalDaysInFirstWeek ≤ 7

section Weeks

variable (region : Region)

/-- The first day of the week of a day. -/
def weekStart (day : Int) : Int := onOrBefore day region.firstDayOfWeek

/-- Where week 1 of a month or year that starts on this day begins: the first
week with enough days in it. -/
def firstWeek (start : Int) : Int :=
  let next := onOrBefore (start + 6) region.firstDayOfWeek
  if region.minimalDaysInFirstWeek ≤ next - start then next - 7 else next

def weekNumber (start day : Int) : Int := (day - firstWeek region start) / 7 + 1

/-- The day of a week, by number, of a month or year that starts on this day. -/
def dayOfNumberedWeek (start week dow : Int) : Int := onOrBefore (firstWeek region start + 6) dow + 7 * (week - 1)

/-- The year whose weeks a day is counted among. -/
def weekYear (day : Int) : Int :=
  if day < firstWeek region (firstOfYear (year day)) then year day - 1
  else if firstWeek region (firstOfYear (year day + 1)) ≤ day then year day + 1
  else year day

def weekOfYear (day : Int) : Int := weekNumber region (firstOfYear (weekYear region day)) day

def weekOfMonth (day : Int) : Int := weekNumber region (firstOfMonth day) day

theorem weekStart_bounds (day : Int) : weekStart region day ≤ day ∧ day < weekStart region day + 7 := onOrBefore_bounds day _

theorem dayOfWeek_weekStart (day : Int) : dayOfWeek (weekStart region day) = region.firstDayOfWeek :=
  dayOfWeek_onOrBefore day region.firstDay_range

theorem dayOfWeek_firstWeek (start : Int) : dayOfWeek (firstWeek region start) = region.firstDayOfWeek := by
  have next := dayOfWeek_onOrBefore (start + 6) region.firstDay_range
  unfold firstWeek
  dsimp only
  split
  · unfold dayOfWeek at next ⊢
    omega
  · exact next

theorem firstWeek_bounds (start : Int) : start - 7 ≤ firstWeek region start ∧ firstWeek region start ≤ start + 6 := by
  have next := onOrBefore_bounds (start + 6) region.firstDayOfWeek
  unfold firstWeek
  dsimp only
  split <;> omega

/-- Numbered weeks are weeks. -/
theorem firstWeek_add (start day : Int) :
    firstWeek region start + 7 * ((day - firstWeek region start) / 7) = weekStart region day := by
  have first := dayOfWeek_firstWeek region start
  refine (onOrBefore_eq ⟨by omega, by omega⟩ ?_).symm
  unfold dayOfWeek at first ⊢
  omega

theorem dayOfNumberedWeek_weekNumber (start day dow : Int) :
    dayOfNumberedWeek region start (weekNumber region start day) dow = onOrBefore (weekStart region day + 6) dow := by
  rw [dayOfNumberedWeek, weekNumber, ← firstWeek_add region start day, ← onOrBefore_add_weeks]
  congr 1
  omega

theorem firstWeek_le_iff (start day : Int) : firstWeek region start ≤ day ↔ firstWeek region start ≤ weekStart region day := by
  have first := dayOfWeek_firstWeek region start
  have week := weekStart_bounds region day
  have same := dayOfWeek_weekStart region day
  unfold dayOfWeek at first same
  omega

theorem firstWeek_lt {y y' : Int} (earlier : y < y') :
    firstWeek region (firstOfYear y) < firstWeek region (firstOfYear y') := by
  refine strictMono_int_of_lt_succ (f := fun y => firstWeek region (firstOfYear y)) (fun y => ?_) earlier
  have longer := firstOfYear_succ y
  have here := firstWeek_bounds region (firstOfYear y)
  have there := firstWeek_bounds region (firstOfYear (y + 1))
  show firstWeek region (firstOfYear y) < firstWeek region (firstOfYear (y + 1))
  omega

theorem weekYear_bounds (day : Int) : firstWeek region (firstOfYear (weekYear region day)) ≤ day ∧
    day < firstWeek region (firstOfYear (weekYear region day + 1)) := by
  have within := year_bounds day
  unfold weekYear
  split
  · next before =>
    have longer := firstOfYear_succ (year day - 1)
    have there := firstWeek_bounds region (firstOfYear (year day - 1))
    rw [Int.sub_add_cancel] at longer ⊢
    exact ⟨by omega, before⟩
  · next notBefore =>
    split
    · next after =>
      have longer := firstOfYear_succ (year day + 1)
      have there := firstWeek_bounds region (firstOfYear (year day + 1 + 1))
      exact ⟨after, by omega⟩
    · next notAfter => exact ⟨by omega, by omega⟩

theorem dayOfNumberedWeek_succ (start week dow : Int) :
    dayOfNumberedWeek region start (week + 1) dow = dayOfNumberedWeek region start week dow + 7 := by
  unfold dayOfNumberedWeek
  omega

/-- The same week of two years falls together only if the years do. -/
theorem dayOfNumberedWeek_eq_iff (y y' week dow : Int) :
    dayOfNumberedWeek region (firstOfYear y) week dow = dayOfNumberedWeek region (firstOfYear y') week dow ↔ y = y' := by
  have first := dayOfWeek_firstWeek region (firstOfYear y)
  have first' := dayOfWeek_firstWeek region (firstOfYear y')
  obtain ⟨k, apart⟩ : ∃ k, firstWeek region (firstOfYear y) = firstWeek region (firstOfYear y') + 7 * k := by
    unfold dayOfWeek at first first'
    exact ⟨(firstWeek region (firstOfYear y) - firstWeek region (firstOfYear y')) / 7, by omega⟩
  have weeks := onOrBefore_add_weeks (firstWeek region (firstOfYear y') + 6) dow k
  have sameYear : firstWeek region (firstOfYear y) = firstWeek region (firstOfYear y') ↔ y = y' := by
    refine ⟨fun same => ?_, fun same => by rw [same]⟩
    rcases lt_trichotomy y y' with earlier | same' | later
    · have less := firstWeek_lt region earlier
      omega
    · exact same'
    · have less := firstWeek_lt region later
      omega
  rw [← sameYear, dayOfNumberedWeek, dayOfNumberedWeek, apart, add_right_comm, weeks]
  omega

theorem weekYear_unique {day y : Int} (started : firstWeek region (firstOfYear y) ≤ day)
    (unfinished : day < firstWeek region (firstOfYear (y + 1))) : weekYear region day = y := by
  have bounds := weekYear_bounds region day
  have mono : ∀ {z z' : Int}, z ≤ z' → firstWeek region (firstOfYear z) ≤ firstWeek region (firstOfYear z') := by
    intro z z' le
    rcases eq_or_lt_of_le le with rfl | less
    · exact Int.le_refl _
    · exact Int.le_of_lt (firstWeek_lt region less)
  rcases lt_trichotomy (weekYear region day) y with earlier | same | later
  · have order : firstWeek region (firstOfYear (weekYear region day + 1)) ≤ firstWeek region (firstOfYear y) := mono earlier
    omega
  · exact same
  · have order : firstWeek region (firstOfYear (y + 1)) ≤ firstWeek region (firstOfYear (weekYear region day)) := mono later
    omega

/-- A week is counted among the weeks of one year. -/
theorem weekYear_of_weekStart {day d : Int} (same : weekStart region d = weekStart region day) :
    weekYear region d = weekYear region day := by
  have bounds := weekYear_bounds region day
  apply weekYear_unique region
  · rw [firstWeek_le_iff, same, ← firstWeek_le_iff]
    exact bounds.1
  · rw [← not_le, firstWeek_le_iff, same, ← firstWeek_le_iff, not_le]
    exact bounds.2

end Weeks

/-! ## The calendar -/

/-- The milliseconds of a minute. -/
def minuteMillis : Int := 60000

def dayMillis : Int := 1440 * minuteMillis

/-- The time of a calendar with the fields set since it was computed. -/
structure Calendar where
  time : Int
  dayOfWeek : Option Int
  weekOfYear : Option Int
  hourOfDay : Option Int
  minute : Option Int

section Fields

variable (region : Region)

/-- The day of a time. -/
def dayOf (time : Int) : Int := (time + region.zoneOffset) / dayMillis

def minuteOfDay (time : Int) : Int := (time + region.zoneOffset) % dayMillis / minuteMillis

/-- Seconds and milliseconds. -/
def restOfMinute (time : Int) : Int := (time + region.zoneOffset) % minuteMillis

/-- The time with these fields. -/
def compose (day minute rest : Int) : Int := day * dayMillis + minute * minuteMillis + rest - region.zoneOffset

namespace Calendar

/-- A calendar with this time, no field set. -/
def ofTime (time : Int) : Calendar := ⟨time, none, none, none, none⟩

variable (c : Calendar)

/-- The day by the combination with the field set last: the week of the year
where it is set, the week of the month where the day of the week is set alone. -/
def day : Int :=
  let today := dayOf region c.time
  match c.weekOfYear, c.dayOfWeek with
  | some week, dow => dayOfNumberedWeek region (firstOfYear (year today)) week (dow.getD (Gregorian.dayOfWeek today))
  | none, some dow => dayOfNumberedWeek region (firstOfMonth today) (weekOfMonth region today) dow
  | none, none => today

/-- The minute of the day; lenient fields may be of any size. -/
def minutes : Int :=
  60 * c.hourOfDay.getD (minuteOfDay region c.time / 60) + c.minute.getD (minuteOfDay region c.time % 60)

def getTimeInMillis : Int := compose region (c.day region) (c.minutes region) (restOfMinute region c.time)

end Calendar

theorem minute_range (time : Int) : 0 ≤ minuteOfDay region time ∧ minuteOfDay region time < 1440 := by
  unfold minuteOfDay dayMillis minuteMillis
  omega

theorem rest_range (time : Int) : 0 ≤ restOfMinute region time ∧ restOfMinute region time < minuteMillis := by
  unfold restOfMinute minuteMillis
  omega

theorem compose_self (time : Int) :
    compose region (dayOf region time) (minuteOfDay region time) (restOfMinute region time) = time := by
  unfold compose dayOf minuteOfDay restOfMinute dayMillis minuteMillis
  omega

section Compose

variable (day : Int) {minute rest : Int} (minutes : 0 ≤ minute ∧ minute < 1440) (rests : 0 ≤ rest ∧ rest < minuteMillis)

include minutes rests

theorem dayOf_compose : dayOf region (compose region day minute rest) = day := by
  unfold minuteMillis at rests
  unfold dayOf compose dayMillis minuteMillis
  omega

theorem minuteOfDay_compose : minuteOfDay region (compose region day minute rest) = minute := by
  unfold minuteMillis at rests
  unfold minuteOfDay compose dayMillis minuteMillis
  omega

end Compose

theorem restOfMinute_compose (day minute : Int) {rest : Int} (rests : 0 ≤ rest ∧ rest < minuteMillis) :
    restOfMinute region (compose region day minute rest) = rest := by
  unfold minuteMillis at rests
  unfold restOfMinute compose dayMillis minuteMillis
  omega

/-- Times within the same part of a minute are ordered by their minutes. -/
theorem compose_le_iff (day minute day' minute' rest : Int) :
    compose region day minute rest ≤ compose region day' minute' rest ↔ 1440 * day + minute ≤ 1440 * day' + minute' := by
  unfold compose dayMillis minuteMillis
  omega

theorem compose_lt_iff (day minute day' minute' rest : Int) :
    compose region day minute rest < compose region day' minute' rest ↔ 1440 * day + minute < 1440 * day' + minute' := by
  rw [← not_le, compose_le_iff, not_le]

theorem compose_add_minutes (day minute rest k : Int) :
    compose region day minute rest + k * minuteMillis = compose region day (minute + k) rest := by
  unfold compose minuteMillis
  omega

end Fields

end OpenDelta.Gregorian
