import Mathlib.Tactic.Ring
import OpenDelta.Data.Calendar
import OpenDelta.Schedule.Alarms

/-!
# When the custom alarm is due

`setCustomAlarmFromPrefs` overwrites fields of the current time. In daily mode
the time stays on the current day, in weekly mode in the current week, and a time
of the week that has passed is moved by the number of the week.
-/

namespace OpenDelta.Schedule
open JavaString Gregorian Device

/-- A time of day, on a day of the week in weekly mode. -/
structure Request where
  weekDay : Option Int
  hour : Int
  minute : Int
  deriving DecidableEq, Repr

/-- What the `try` block of the mode reads from the preferences. -/
def SchedulerPrefs.request (digit : Char → Option Nat) (prefs : SchedulerPrefs) : Option Request :=
  if prefs.alarmType = modeDaily then do
    let (hour, minute) ← Scheduler.timeParts digit prefs.dailyAlarmTime
    return { weekDay := none, hour, minute }
  else if prefs.alarmType = modeWeekly then do
    let (hour, minute) ← Scheduler.timeParts digit prefs.dailyAlarmTime
    let weekDay ← integerValueOf digit prefs.weeklyAlarmDay
    return { weekDay := some weekDay, hour, minute }
  else none

/-- The preferences ask for a time where the scheduler sets an alarm. -/
theorem SchedulerPrefs.request_isSome (digit : Char → Option Nat) (prefs : SchedulerPrefs) :
    (prefs.request digit).isSome = Scheduler.tells digit prefs := by
  unfold SchedulerPrefs.request Scheduler.tells
  split
  · cases Scheduler.timeParts digit prefs.dailyAlarmTime <;> rfl
  · split
    · cases Scheduler.timeParts digit prefs.dailyAlarmTime with
      | none => rfl
      | some parts => cases integerValueOf digit prefs.weeklyAlarmDay <;> rfl
    · rfl

namespace Request

variable (region : Region) (now : Int) (r : Request)

/-- `INTERVAL_DAY`, or seven of them. -/
def interval : Int := if r.weekDay.isSome then 7 * dayMillis else dayMillis

/-- The first trigger time given to the alarm manager. -/
def trigger : Int :=
  match r.weekDay with
  | none => { Calendar.ofTime now with hourOfDay := some r.hour, minute := some r.minute }.getTimeInMillis region
  | some weekDay =>
    let c := { Calendar.ofTime now with dayOfWeek := some weekDay, hourOfDay := some r.hour, minute := some r.minute }
    let time := c.getTimeInMillis region
    -- next week
    if time < now then
      { Calendar.ofTime time with weekOfYear := some (weekOfYear region (dayOf region now) + 1) }.getTimeInMillis region
    else time

/-- The values of the settings. -/
structure InRange : Prop where
  hour : 0 ≤ r.hour ∧ r.hour < 24
  minute : 0 ≤ r.minute ∧ r.minute < 60
  weekDay : ∀ d, r.weekDay = some d → 1 ≤ d ∧ d ≤ 7

/-- **A time is the next occurrence** of the request, up to a minute. -/
structure Fires (time : Int) : Prop where
  notBefore : now ≤ time
  soon : time < now + r.interval + minuteMillis
  hour : minuteOfDay region time / 60 = r.hour
  minute : minuteOfDay region time % 60 = r.minute
  weekDay : ∀ d, r.weekDay = some d → dayOfWeek (dayOf region time) = d

/-- The requested day of the current week. -/
def dayOfThisWeek (weekDay : Int) : Int := onOrBefore (weekStart region (dayOf region now) + 6) weekDay

/-- The minute of the request. -/
def minutes : Int := 60 * r.hour + r.minute

/-- The requested time of the day or week has not passed, or the requested day of
the week is in the year its week is counted in. -/
def OnTime : Prop :=
  match r.weekDay with
  | none => minuteOfDay region now ≤ r.minutes
  | some weekDay =>
    let day := dayOfThisWeek region now weekDay
    1440 * dayOf region now + minuteOfDay region now ≤ 1440 * day + r.minutes ∨ weekYear region day = year day

variable {region now r}

theorem InRange.minutes (inRange : r.InRange) : 0 ≤ r.minutes ∧ r.minutes < 1440 := by
  have := inRange.hour
  have := inRange.minute
  unfold Request.minutes
  omega

/-- The minutes of the interval. -/
def intervalMinutes (r : Request) : Int := if r.weekDay.isSome then 7 * 1440 else 1440

theorem interval_eq (r : Request) : r.interval = r.intervalMinutes * minuteMillis := by
  unfold interval intervalMinutes dayMillis
  split <;> ring

/-- A time with the requested minute is the next occurrence by its day. -/
theorem fires_compose_iff (inRange : r.InRange) (day : Int) :
    r.Fires region now (compose region day r.minutes (restOfMinute region now)) ↔
      1440 * dayOf region now + minuteOfDay region now ≤ 1440 * day + r.minutes ∧
      1440 * day + r.minutes ≤ 1440 * dayOf region now + minuteOfDay region now + r.intervalMinutes ∧
      ∀ d, r.weekDay = some d → dayOfWeek day = d := by
  have whole := compose_self region now
  have rest := rest_range region now
  have notBefore : now ≤ compose region day r.minutes (restOfMinute region now) ↔
      1440 * dayOf region now + minuteOfDay region now ≤ 1440 * day + r.minutes := by
    have order := compose_le_iff region (dayOf region now) (minuteOfDay region now) day r.minutes (restOfMinute region now)
    rwa [whole] at order
  have soon : compose region day r.minutes (restOfMinute region now) < now + r.interval + minuteMillis ↔
      1440 * day + r.minutes ≤ 1440 * dayOf region now + minuteOfDay region now + r.intervalMinutes := by
    have bound : now + r.interval + minuteMillis =
        compose region (dayOf region now) (minuteOfDay region now + (r.intervalMinutes + 1)) (restOfMinute region now) := by
      rw [← compose_add_minutes, whole, interval_eq]
      ring
    rw [bound, compose_lt_iff]
    omega
  have time := minuteOfDay_compose region day inRange.minutes rest
  have date := dayOf_compose region day inRange.minutes rest
  rw [← notBefore, ← soon]
  constructor
  · intro fires
    refine ⟨fires.notBefore, fires.soon, fun d asked => ?_⟩
    rw [← fires.weekDay d asked, date]
  · rintro ⟨late, early, weekDay⟩
    have hour := inRange.hour
    have minute := inRange.minute
    refine ⟨late, early, ?_, ?_, fun d asked => ?_⟩
    · rw [time, Request.minutes]
      omega
    · rw [time, Request.minutes]
      omega
    · rw [date, weekDay d asked]

theorem trigger_daily (daily : r.weekDay = none) :
    r.trigger region now = compose region (dayOf region now) r.minutes (restOfMinute region now) := by
  rw [trigger, daily]
  rfl

section Weekly

variable {weekDay : Int}

/-- The time in the current week. -/
theorem thisWeek_eq (region : Region) (now : Int) (r : Request) (weekDay : Int) :
    Calendar.getTimeInMillis region
        { Calendar.ofTime now with dayOfWeek := some weekDay, hourOfDay := some r.hour, minute := some r.minute } =
      compose region (dayOfThisWeek region now weekDay) r.minutes (restOfMinute region now) := by
  rw [Calendar.getTimeInMillis, dayOfThisWeek, ← dayOfNumberedWeek_weekNumber region (firstOfMonth (dayOf region now))]
  rfl

theorem dayOfWeek_thisWeek (region : Region) (now : Int) (real : 1 ≤ weekDay ∧ weekDay ≤ 7) :
    dayOfWeek (dayOfThisWeek region now weekDay) = weekDay := dayOfWeek_onOrBefore _ real

theorem thisWeek_bounds (region : Region) (now weekDay : Int) :
    weekStart region (dayOf region now) ≤ dayOfThisWeek region now weekDay ∧
      dayOfThisWeek region now weekDay ≤ weekStart region (dayOf region now) + 6 := by
  have bounds := onOrBefore_bounds (weekStart region (dayOf region now) + 6) weekDay
  unfold dayOfThisWeek
  omega

/-- The requested day is counted among the same weeks as the current day. -/
theorem weekYear_thisWeek (region : Region) (now weekDay : Int) :
    weekYear region (dayOfThisWeek region now weekDay) = weekYear region (dayOf region now) := by
  apply weekYear_of_weekStart
  have bounds := thisWeek_bounds region now weekDay
  exact onOrBefore_eq ⟨bounds.1, by omega⟩ (dayOfWeek_weekStart region _)

/-- The day that the next number of the week gives, with the year of a day. -/
def numberedDay (region : Region) (now weekDay : Int) : Int :=
  dayOfNumberedWeek region (firstOfYear (year (dayOfThisWeek region now weekDay)))
    (weekOfYear region (dayOf region now) + 1) weekDay

theorem numberedDay_eq_iff (region : Region) (now weekDay : Int) :
    numberedDay region now weekDay = dayOfThisWeek region now weekDay + 7 ↔
      weekYear region (dayOfThisWeek region now weekDay) = year (dayOfThisWeek region now weekDay) := by
  have here : dayOfNumberedWeek region (firstOfYear (weekYear region (dayOf region now)))
      (weekOfYear region (dayOf region now)) weekDay = dayOfThisWeek region now weekDay :=
    dayOfNumberedWeek_weekNumber region _ _ _
  have years := dayOfNumberedWeek_eq_iff region (weekYear region (dayOf region now))
    (year (dayOfThisWeek region now weekDay)) (weekOfYear region (dayOf region now)) weekDay
  rw [weekYear_thisWeek, ← years, here, numberedDay, dayOfNumberedWeek_succ]
  constructor <;> intro equal <;> omega

/-- With the week of the year set alone, the other fields are those of the time. -/
theorem getTimeInMillis_weekOfYear (region : Region) (time week : Int) :
    Calendar.getTimeInMillis region { Calendar.ofTime time with weekOfYear := some week } =
      compose region (dayOfNumberedWeek region (firstOfYear (year (dayOf region time))) week (dayOfWeek (dayOf region time)))
        (minuteOfDay region time) (restOfMinute region time) := by
  have minutes : 60 * (minuteOfDay region time / 60) + minuteOfDay region time % 60 = minuteOfDay region time := by omega
  rw [Calendar.getTimeInMillis, Calendar.minutes]
  simp only [Calendar.ofTime, Option.getD_none, minutes, Calendar.day]

theorem trigger_weekly (inRange : r.InRange) (weekly : r.weekDay = some weekDay) :
    r.trigger region now = compose region
      (if 1440 * dayOfThisWeek region now weekDay + r.minutes < 1440 * dayOf region now + minuteOfDay region now then
        numberedDay region now weekDay else dayOfThisWeek region now weekDay) r.minutes (restOfMinute region now) := by
  have rest := rest_range region now
  have passed : compose region (dayOfThisWeek region now weekDay) r.minutes (restOfMinute region now) < now ↔
      1440 * dayOfThisWeek region now weekDay + r.minutes < 1440 * dayOf region now + minuteOfDay region now := by
    have order := compose_lt_iff region (dayOfThisWeek region now weekDay) r.minutes (dayOf region now)
      (minuteOfDay region now) (restOfMinute region now)
    rwa [compose_self] at order
  simp only [trigger, weekly, thisWeek_eq, passed]
  split
  · rw [getTimeInMillis_weekOfYear, dayOf_compose region _ inRange.minutes rest, minuteOfDay_compose region _ inRange.minutes rest,
      restOfMinute_compose region _ _ rest, dayOfWeek_thisWeek region now (inRange.weekDay weekDay weekly)]
    rfl
  · rfl

/-- **The alarm is set to its next occurrence exactly if its time of the day or
week has not passed or its day is in the year of its week.** -/
theorem fires_iff {digit : Char → Option Nat} {prefs : SchedulerPrefs} (asked : prefs.request digit = some r)
    (inRange : r.InRange) (region : Region) (now : Int) :
    (∃ time, (prefs.request digit).map (Request.trigger region now) = some time ∧ r.Fires region now time) ↔
      r.OnTime region now := by
  have minutes := inRange.minutes
  have current := minute_range region now
  rw [asked, Option.map_some]
  have here : (∃ time, some (r.trigger region now) = some time ∧ r.Fires region now time) ↔
      r.Fires region now (r.trigger region now) := by simp
  rw [here]
  cases weekly : r.weekDay with
  | none =>
    rw [trigger_daily weekly, fires_compose_iff inRange, OnTime, weekly, intervalMinutes, weekly]
    simp only [reduceCtorEq, false_implies, implies_true, and_true, Option.isSome_none, Bool.false_eq_true, if_false]
    omega
  | some weekDay =>
    have real := inRange.weekDay weekDay weekly
    have week := weekStart_bounds region (dayOf region now)
    have bounds := thisWeek_bounds region now weekDay
    have sameDay := dayOfWeek_thisWeek region now real
    have sevenDays : r.intervalMinutes = 7 * 1440 := by rw [intervalMinutes, weekly]; rfl
    have onTime : r.OnTime region now ↔
        1440 * dayOf region now + minuteOfDay region now ≤ 1440 * dayOfThisWeek region now weekDay + r.minutes ∨
          numberedDay region now weekDay = dayOfThisWeek region now weekDay + 7 := by
      rw [numberedDay_eq_iff, OnTime, weekly]
    rw [trigger_weekly inRange weekly, fires_compose_iff inRange, onTime, sevenDays, weekly]
    simp only [Option.some.injEq, forall_eq']
    split
    · next passed =>
      constructor
      · rintro ⟨notBefore, soon, day⟩
        unfold dayOfWeek at sameDay day
        exact .inr (by omega)
      · rintro (due | next)
        · omega
        · refine ⟨by omega, by omega, ?_⟩
          rw [next]
          unfold dayOfWeek at sameDay ⊢
          omega
    · next due =>
      constructor
      · intro _
        exact .inl (by omega)
      · intro _
        exact ⟨by omega, by omega, sameDay⟩

/-- Weeks as in the United States, in Greenwich time. -/
def sampleRegion : Region where
  zoneOffset := 0
  firstDayOfWeek := 1
  minimalDaysInFirstWeek := 1
  firstDay_range := by decide
  minimalDays_range := by decide

/-- Daily at half past ten. -/
def dailyPrefs : SchedulerPrefs := ⟨some "1", some "10:30", none, 0⟩

theorem dailyPrefs_request : dailyPrefs.request asciiDigit = some ⟨none, 10, 30⟩ := by decide

/-- On 2015-09-02 at 08:00. -/
theorem fires_morning : ∃ time, (dailyPrefs.request asciiDigit).map (Request.trigger sampleRegion 1441180800000) = some time ∧
    (⟨none, 10, 30⟩ : Request).Fires sampleRegion 1441180800000 time := by
  have inRange : (⟨none, 10, 30⟩ : Request).InRange := ⟨by decide, by decide, fun d asked => by cases asked⟩
  refine (fires_iff dailyPrefs_request inRange _ _).mpr ?_
  show minuteOfDay sampleRegion 1441180800000 ≤ 630
  decide

/-- On 2015-09-02 at 12:00 the alarm is set to a time that has passed. -/
theorem fires_afternoon :
    ¬ ∃ time, (dailyPrefs.request asciiDigit).map (Request.trigger sampleRegion 1441195200000) = some time ∧
      (⟨none, 10, 30⟩ : Request).Fires sampleRegion 1441195200000 time := by
  rintro ⟨time, set, fires⟩
  rw [dailyPrefs_request] at set
  cases set
  exact absurd fires.notBefore (by decide)

/-- On 2014-12-31 at 12:00, in week 1 of 2015, the alarm for Tuesday at 10:00 is set
to 2014-01-07. -/
example : Request.trigger sampleRegion 1420027200000 ⟨some 3, 10, 0⟩ = 1389088800000 := by decide

end Weekly

end Request

end OpenDelta.Schedule
