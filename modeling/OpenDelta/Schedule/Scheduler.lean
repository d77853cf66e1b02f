import OpenDelta.Data.JavaString

/-!
# `Scheduler.java`

The alarms of the update service, the preferences they are set from, and what
sets and cancels them. When an alarm is due plays no part in what is registered,
so times are left out, except for whether the preferences tell one.
-/

namespace OpenDelta.Schedule
open JavaString

/-- The alarms, in the order of their ids. -/
inductive Alarm where
  | interval | secondaryWake | detectSleep | custom
  deriving DecidableEq, Repr

/-- `alarmManager` repeats the alarm instead of forgetting it once it fires. -/
def Alarm.repeats : Alarm → Bool
  | interval | custom => true
  | secondaryWake | detectSleep => false

/-- The preferences of the scheduler; `none` is a preference not set. -/
structure SchedulerPrefs where
  mode : Option String
  dailyTime : Option String
  weekDay : Option String
  lastCheckAttemptTime : Int64

def modeSmart : String := "0"
def modeDaily : String := "1"
def modeWeekly : String := "2"

/-- `CHECK_THRESHOLD_MS`. -/
def checkThreshold : Int64 := 6 * 3600000

namespace SchedulerPrefs

variable (prefs : SchedulerPrefs)

/-- `alarmType`. -/
def alarmType : String := prefs.mode.getD modeSmart

def dailyAlarmTime : String := prefs.dailyTime.getD "00:00"

def weeklyAlarmDay : String := prefs.weekDay.getD "1"

/-- The mode is daily or weekly. -/
def isCustom : Bool := prefs.alarmType == modeDaily || prefs.alarmType == modeWeekly

end SchedulerPrefs

/-- The fields of a `Scheduler` with its preferences and what is registered with
the alarm manager. -/
structure Scheduler where
  prefs : SchedulerPrefs
  stopped : Bool
  customAlarm : Bool
  registered : Alarm → Bool

namespace Scheduler

variable (digit : Char → Option Nat)

/-- `new Scheduler(..)` with no alarm registered. -/
def new (prefs : SchedulerPrefs) : Scheduler where
  prefs
  stopped := true
  customAlarm := false
  registered _ := false

def set (s : Scheduler) (a : Alarm) : Scheduler := { s with registered := fun b => b == a || s.registered b }

def cancel (s : Scheduler) (a : Alarm) : Scheduler := { s with registered := fun b => b != a && s.registered b }

@[simp] theorem set_registered (s : Scheduler) (a b : Alarm) :
    (s.set a).registered b = (b == a || s.registered b) := rfl

@[simp] theorem cancel_registered (s : Scheduler) (a b : Alarm) :
    (s.cancel a).registered b = (b != a && s.registered b) := rfl

def setSecondaryWakeAlarm (s : Scheduler) : Scheduler := s.set .secondaryWake

def cancelSecondaryWakeAlarm (s : Scheduler) : Scheduler := s.cancel .secondaryWake

def setDetectSleepAlarm (s : Scheduler) : Scheduler := s.set .detectSleep

def cancelDetectSleepAlarm (s : Scheduler) : Scheduler := s.cancel .detectSleep

def onScreenState (s : Scheduler) (state : Bool) : Scheduler :=
  if !s.stopped && !s.customAlarm then
    if !state then s.setDetectSleepAlarm else s.cancelDetectSleepAlarm
  else s

/-- `checkForUpdates`: the listener is asked, and a check it starts is noted.
`wanted` is the answer of the listener at the time `now`. -/
def checkForUpdates (s : Scheduler) (force : Bool) (now : Int64) (wanted : Bool) : Scheduler :=
  if force || decide (checkThreshold < (now - s.prefs.lastCheckAttemptTime).abs) then
    if wanted then { s with prefs := { s.prefs with lastCheckAttemptTime := now } } else s
  else s

/-- The check an alarm asks for is unconditional. -/
def forces : Alarm → Bool
  | .interval | .secondaryWake => false
  | .detectSleep | .custom => true

/-- `alarm(id)`. -/
def alarm (s : Scheduler) (id : Alarm) (now : Int64) (wanted : Bool) : Scheduler :=
  let s := s.checkForUpdates (forces id) now wanted
  if !s.customAlarm then s.cancelSecondaryWakeAlarm.setSecondaryWakeAlarm else s

def stop (s : Scheduler) : Scheduler :=
  { (((s.cancelSecondaryWakeAlarm.cancelDetectSleepAlarm).cancel .interval).cancel .custom) with stopped := true }

/-- Hour and minute, where the preference tells them. -/
def timeParts (time : String) : Option (Int × Int) := do
  let parts := split time ':'
  let hour ← integerValueOf digit (← parts[0]?)
  let minute ← integerValueOf digit (← parts[1]?)
  return (hour, minute)

/-- The `try` block of the mode comes to the alarm manager. -/
def tells (prefs : SchedulerPrefs) : Bool :=
  if prefs.alarmType = modeDaily then (timeParts digit prefs.dailyAlarmTime).isSome
  else if prefs.alarmType = modeWeekly then
    (timeParts digit prefs.dailyAlarmTime).isSome && (integerValueOf digit prefs.weeklyAlarmDay).isSome
  else false

def setCustomAlarmFromPrefs (s : Scheduler) : Scheduler :=
  if s.customAlarm && tells digit s.prefs then (s.cancel .custom).set .custom else s

def start (s : Scheduler) : Scheduler :=
  let s := { s with customAlarm := s.prefs.isCustom }
  let s :=
    if s.customAlarm then s.setCustomAlarmFromPrefs digit
    else (s.set .interval).setSecondaryWakeAlarm
  { s with stopped := false }

/-- The preferences of the settings that reach the scheduler, each with its new
value; `autoDownload` reaches it through the update service. -/
inductive Change where
  | mode (value : String)
  | dailyTime (value : String)
  | weekDay (value : String)
  | autoDownload (value : Int)
  | other

/-- The stored preferences after a change. -/
def Change.store (prefs : SchedulerPrefs) : Change → SchedulerPrefs
  | mode value => { prefs with mode := some value }
  | dailyTime value => { prefs with dailyTime := some value }
  | weekDay value => { prefs with weekDay := some value }
  | autoDownload _ | other => prefs

/-- `Scheduler.onSharedPreferenceChanged`. -/
def onSharedPreferenceChanged (s : Scheduler) : Change → Scheduler
  | .mode _ => if !s.stopped then s.stop.start digit else s
  | .dailyTime _ | .weekDay _ => s.setCustomAlarmFromPrefs digit
  | .autoDownload _ | .other => s

/-- `UpdateService.onSharedPreferenceChanged`, as far as it reaches the
scheduler; `PREF_AUTO_DOWNLOAD_DISABLED` is 0. -/
def preferenceChanged (s : Scheduler) (change : Change) : Scheduler :=
  let s := { s with prefs := change.store s.prefs }
  let s :=
    match change with
    | .autoDownload value => if value = 0 then s.stop else s.start digit
    | _ => s
  s.onSharedPreferenceChanged digit change

end Scheduler

end OpenDelta.Schedule
