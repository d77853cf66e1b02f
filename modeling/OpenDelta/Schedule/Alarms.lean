import OpenDelta.Schedule.Scheduler
import OpenDelta.Data.Runs

/-!
# Which alarms are registered

Runs of a scheduler whose alarms fire and are delivered later. `armed_always`:
as long as no alarm is delivered and no time is set for a stopped scheduler
that the code does not know to be stopped, the registered alarms are those of
the mode.
-/

namespace OpenDelta.Schedule

/-- A scheduler, and the alarms that have fired and are not delivered. -/
structure Device where
  scheduler : Scheduler
  fired : List Alarm

/-- What happens to a scheduler. -/
inductive Event where
  | start
  | stop
  | preference (change : Scheduler.Change)
  | screen (state : Bool)
  | fire (a : Alarm)
  | deliver (a : Alarm) (now : Int64) (wanted : Bool)

namespace Device

variable (digit : Char → Option Nat)

/-- An event, where it can happen: a registered alarm fires, a fired one is
delivered. -/
def step (d : Device) : Event → Option Device
  | .start => some { d with scheduler := d.scheduler.start digit }
  | .stop => some { d with scheduler := d.scheduler.stop }
  | .preference change => some { d with scheduler := d.scheduler.preferenceChanged digit change }
  | .screen state => some { d with scheduler := d.scheduler.onScreenState state }
  | .fire a =>
    if d.scheduler.registered a then
      some {
        scheduler := if a.repeats then d.scheduler else d.scheduler.cancel a
        fired := d.fired ++ [a] }
    else none
  | .deliver a now wanted =>
    if a ∈ d.fired then some { scheduler := d.scheduler.alarm a now wanted, fired := d.fired.erase a }
    else none

/-- A new scheduler, no alarm registered. -/
def new (prefs : SchedulerPrefs) : Device := ⟨.new prefs, []⟩

/-- The registration invariant: nothing while stopped, the custom alarm alone in
daily and weekly mode, interval and secondary alarm in smart mode, where only
the sleep alarm can join them. -/
structure Armed (s : Scheduler) : Prop where
  stopped : s.stopped = true → ∀ a, s.registered a = false
  custom : s.stopped = false → s.prefs.isCustom = true → ∀ a, s.registered a = decide (a = .custom)
  smart : s.stopped = false → s.prefs.isCustom = false →
    s.registered .interval = true ∧ s.registered .secondaryWake = true ∧ s.registered .custom = false

/-- Events after which the registered alarms are those of the mode: a stopped
scheduler gets no alarm delivered unless it was last started with a custom
alarm, and no time to set one while it was; and a custom mode that is started
tells a time. -/
def Orderly (d : Device) : Event → Prop
  | .start => d.scheduler.stopped = true → d.scheduler.prefs.isCustom = true →
      Scheduler.tells digit d.scheduler.prefs
  | .preference change =>
    let prefs := change.store d.scheduler.prefs
    match change with
    | .autoDownload value => 
      value ≠ 0 → d.scheduler.stopped = true → prefs.isCustom = true → Scheduler.tells digit prefs
    | .mode _ => d.scheduler.stopped = false → prefs.isCustom = true → Scheduler.tells digit prefs
    | .dailyTime _ | .weekDay _ =>
      d.scheduler.stopped = true → d.scheduler.customAlarm = true → ¬ Scheduler.tells digit prefs
    | .other => True
  | .deliver _ _ _ => d.scheduler.stopped = true → d.scheduler.customAlarm = true
  | _ => True

end Device

namespace Scheduler

/-- The invariant behind `Armed`: the flag `customAlarm` agrees with the mode
while the scheduler is started, and a secondary alarm that is not registered has
fired and sets itself again when it is delivered. -/
structure Kept (s : Scheduler) (fired : List Alarm) : Prop where
  stopped : s.stopped = true → ∀ a, s.registered a = false
  synced : s.stopped = false → s.customAlarm = s.prefs.isCustom
  custom : s.stopped = false → s.customAlarm = true → ∀ a, s.registered a = decide (a = .custom)
  smart : s.stopped = false → s.customAlarm = false →
    s.registered .interval = true ∧ s.registered .custom = false ∧
      (s.registered .secondaryWake = true ∨ .secondaryWake ∈ fired)

namespace Kept

variable {digit : Char → Option Nat} {s : Scheduler} {fired : List Alarm}

theorem new (prefs : SchedulerPrefs) : (Scheduler.new prefs).Kept [] where
  stopped _ _ := rfl
  synced started := nomatch started
  custom started := nomatch started
  smart started := nomatch started

theorem stop : s.stop.Kept fired where
  stopped _ a := by cases a <;> simp [Scheduler.stop, cancelSecondaryWakeAlarm, cancelDetectSleepAlarm]
  synced started := nomatch started
  custom started := nomatch started
  smart started := nomatch started

/-- A new time, where a stopped scheduler does not take it. -/
theorem setCustomAlarmFromPrefs (kept : s.Kept fired)
    (idle : s.stopped = true → s.customAlarm = true → ¬ tells digit s.prefs) :
    (s.setCustomAlarmFromPrefs digit).Kept fired := by
  unfold Scheduler.setCustomAlarmFromPrefs
  split
  · next sets =>
    rw [Bool.and_eq_true] at sets
    have started : s.stopped = false := by
      rw [← Bool.not_eq_true]
      exact fun stopped => idle stopped sets.1 sets.2
    refine ⟨?_, kept.synced, ?_, ?_⟩
    · intro stopped
      cases started.symm.trans stopped
    · intro _ _ a
      have before := kept.custom started sets.1 a
      cases a <;> simp [before]
    · intro _ smart
      cases smart.symm.trans sets.1
  · exact kept

/-- `start`, where a custom mode tells a time; the alarms of a scheduler that is
started are those of its mode already. -/
theorem start (kept : s.Kept fired) (ready : s.stopped = true → s.prefs.isCustom = true → tells digit s.prefs) :
    (s.start digit).Kept fired := by
  simp only [Scheduler.start]
  cases mode : s.prefs.isCustom with
  | true =>
    rw [if_pos rfl]
    refine ⟨nofun, fun _ => ?_, fun _ _ a => ?_, fun _ smart => ?_⟩
    · simp only [Scheduler.setCustomAlarmFromPrefs]
      split <;> exact mode.symm
    · simp only [Scheduler.setCustomAlarmFromPrefs, Bool.true_and]
      cases stopped : s.stopped with
      | true =>
        rw [if_pos (ready stopped mode)]
        have before := kept.stopped stopped a
        cases a <;> simp [before]
      | false =>
        have before := kept.custom stopped ((kept.synced stopped).trans mode) a
        split <;> cases a <;> simp [before]
    · simp only [Scheduler.setCustomAlarmFromPrefs] at smart
      split at smart <;> cases smart
  | false =>
    have unset : s.registered .custom = false := by
      cases stopped : s.stopped with
      | true => exact kept.stopped stopped .custom
      | false => exact (kept.smart stopped ((kept.synced stopped).trans mode)).2.1
    refine ⟨nofun, fun _ => mode.symm, nofun, fun _ _ => ?_⟩
    simp [setSecondaryWakeAlarm, unset]

/-- Preferences that do not change the mode. -/
theorem setPrefs (kept : s.Kept fired) (prefs : SchedulerPrefs)
    (mode : s.stopped = false → prefs.isCustom = s.prefs.isCustom) : { s with prefs }.Kept fired where
  stopped := kept.stopped
  synced started := (kept.synced started).trans (mode started).symm
  custom := kept.custom
  smart := kept.smart

theorem onScreenState (kept : s.Kept fired) (state : Bool) : (s.onScreenState state).Kept fired := by
  unfold Scheduler.onScreenState
  split
  · next smart =>
    simp only [Bool.and_eq_true, Bool.not_eq_true'] at smart
    have before := kept.smart smart.1 smart.2
    have kept' : ∀ s' : Scheduler, s'.stopped = s.stopped → s'.customAlarm = s.customAlarm → s'.prefs = s.prefs →
        (∀ a, a ≠ .detectSleep → s'.registered a = s.registered a) → s'.Kept fired := by
      intro s' stopped custom prefs rest
      refine ⟨?_, ?_, ?_, ?_⟩
      · intro stopped'
        cases smart.1.symm.trans (stopped.symm.trans stopped')
      · intro started
        rw [custom, prefs]
        exact kept.synced smart.1
      · intro _ custom'
        cases smart.2.symm.trans (custom.symm.trans custom')
      · intro _ _
        rw [rest _ (by decide), rest _ (by decide), rest _ (by decide)]
        exact before
    split
    · apply kept' <;> try rfl
      intro a other
      simp [setDetectSleepAlarm, other]
    · apply kept' <;> try rfl
      intro a other
      simp [cancelDetectSleepAlarm, other]
  · exact kept

/-- A registered alarm fires; one that does not repeat is forgotten. -/
theorem fire (kept : s.Kept fired) {a : Alarm} (registered : s.registered a = true) :
    (if a.repeats then s else s.cancel a).Kept (fired ++ [a]) := by
  have started : s.stopped = false := by
    rw [← Bool.not_eq_true]
    intro stopped
    cases registered.symm.trans (kept.stopped stopped a)
  have later : .secondaryWake ∈ fired → .secondaryWake ∈ fired ++ [a] := List.mem_append_left _
  split
  · refine ⟨kept.stopped, kept.synced, kept.custom, fun started custom => ?_⟩
    obtain ⟨interval, unset, secondary⟩ := kept.smart started custom
    exact ⟨interval, unset, secondary.imp_right later⟩
  · next once =>
    refine ⟨fun stopped => ?_, kept.synced, fun started custom b => ?_, fun started custom => ?_⟩
    · cases started.symm.trans stopped
    · have fires := kept.custom started custom a
      have before := kept.custom started custom b
      rw [registered] at fires
      obtain rfl : a = .custom := by simpa using fires.symm
      exact absurd rfl once
    · obtain ⟨interval, unset, secondary⟩ := kept.smart started custom
      cases a with
      | interval => exact absurd rfl once
      | custom => exact absurd rfl once
      | secondaryWake => simp [interval, unset]
      | detectSleep => simpa [interval, unset] using secondary

/-- A delivered alarm sets the secondary alarm again, unless the custom alarm is
in use. -/
theorem alarm (kept : s.Kept fired) (a : Alarm) (now : Int64) (wanted : Bool)
    (known : s.stopped = true → s.customAlarm = true) : (s.alarm a now wanted).Kept (fired.erase a) := by
  have checked : ((s.checkForUpdates (forces a) now wanted).Kept fired) ∧
      (s.checkForUpdates (forces a) now wanted).stopped = s.stopped ∧
      (s.checkForUpdates (forces a) now wanted).customAlarm = s.customAlarm := by
    unfold Scheduler.checkForUpdates
    split
    · split
      · exact ⟨kept.setPrefs _ fun _ => rfl, rfl, rfl⟩
      · exact ⟨kept, rfl, rfl⟩
    · exact ⟨kept, rfl, rfl⟩
  simp only [Scheduler.alarm]
  generalize s.checkForUpdates (forces a) now wanted = s' at checked
  obtain ⟨kept', stopped', custom'⟩ := checked
  cases custom : s'.customAlarm with
  | true =>
    refine ⟨kept'.stopped, kept'.synced, kept'.custom, fun _ smart => ?_⟩
    cases smart.symm.trans custom
  | false =>
    have started : s'.stopped = false := by
      rw [← Bool.not_eq_true]
      intro stopped
      cases custom.symm.trans (custom'.trans (known (stopped'.symm.trans stopped)))
    obtain ⟨interval, unset, -⟩ := kept'.smart started custom
    refine ⟨fun stopped => ?_, fun _ => kept'.synced started, fun _ smart => ?_, fun _ _ => ?_⟩
    · cases started.symm.trans stopped
    · cases custom.symm.trans smart
    · simp [cancelSecondaryWakeAlarm, setSecondaryWakeAlarm, interval, unset]

/-- What the update service does with a changed preference. -/
theorem preferenceChanged (kept : s.Kept fired) (change : Change)
    (orderly : (Device.mk s fired).Orderly digit (.preference change)) :
    (s.preferenceChanged digit change).Kept fired := by
  simp only [Scheduler.preferenceChanged]
  cases change with
  | mode value =>
    simp only [Scheduler.onSharedPreferenceChanged]
    split
    · next started =>
      have started : s.stopped = false := by simpa using started
      exact stop.start fun _ => orderly started
    · next stopped =>
      apply kept.setPrefs
      intro started
      exact absurd (by simpa using started) stopped
  | dailyTime value =>
    have kept' := kept.setPrefs { s.prefs with dailyTime := some value } fun _ => rfl
    exact kept'.setCustomAlarmFromPrefs orderly
  | weekDay value =>
    have kept' := kept.setPrefs { s.prefs with weekDay := some value } fun _ => rfl
    exact kept'.setCustomAlarmFromPrefs orderly
  | autoDownload value =>
    simp only [Scheduler.onSharedPreferenceChanged, Change.store]
    split
    · exact stop
    · next enabled => exact kept.start (orderly enabled)
  | other => exact kept

/-- With no alarm on its way, the registered alarms are those of the mode. -/
theorem armed (kept : s.Kept []) : Device.Armed s where
  stopped := kept.stopped
  custom started mode := kept.custom started ((kept.synced started).trans mode)
  smart started mode := by
    obtain ⟨interval, unset, secondary⟩ := kept.smart started ((kept.synced started).trans mode)
    exact ⟨interval, secondary.resolve_right List.not_mem_nil, unset⟩

end Kept

end Scheduler

namespace Device

variable {digit : Char → Option Nat}

/-- One event keeps the invariant. -/
theorem step_kept (d : Device) (event : Event) (d' : Device) (kept : d.scheduler.Kept d.fired)
    (orderly : d.Orderly digit event) (taken : d.step digit event = some d') : d'.scheduler.Kept d'.fired := by
  cases event with
  | start =>
    cases taken
    exact kept.start orderly
  | stop =>
    cases taken
    exact .stop
  | preference change =>
    cases taken
    exact kept.preferenceChanged change orderly
  | screen state =>
    cases taken
    exact kept.onScreenState state
  | fire a =>
    simp only [step] at taken
    split at taken
    · next registered =>
      cases taken
      exact kept.fire registered
    · cases taken
  | deliver a now wanted =>
    simp only [step] at taken
    split at taken
    · cases taken
      exact kept.alarm a now wanted orderly
    · cases taken

/-- **The registered alarms are those of the mode** in every run of orderly
events, whenever no fired alarm waits to be delivered. -/
theorem armed_always (prefs : SchedulerPrefs) (events : List Event)
    (orderly : ∀ d event, Takes (step digit) (new prefs) events d event → d.Orderly digit event)
    (d : Device) (visits : Visits (step digit) (new prefs) events d) (quiet : d.fired = []) :
    Armed d.scheduler := by
  have kept := visits.invariant (fun d => d.scheduler.Kept d.fired) step_kept (.new prefs) orderly
  rw [quiet] at kept
  exact kept.armed

/-- The decimal digits of ASCII. -/
def asciiDigit (c : Char) : Option Nat := if '0' ≤ c ∧ c ≤ '9' then some (c.toNat - '0'.toNat) else none

/-- No preference is set. -/
def unset : SchedulerPrefs := ⟨none, none, none, 0⟩

/-- A secondary alarm is delivered in smart mode; in daily mode the custom alarm
takes over. -/
theorem armed_switched : ∃ d, Visits (step asciiDigit) (new unset)
    [.start, .fire .secondaryWake, .deliver .secondaryWake 0 false, .preference (.mode "1")] d ∧
    d.scheduler.stopped = false ∧ Armed d.scheduler := by
  have events : ∀ d event, Takes (step asciiDigit) (new unset)
      [.start, .fire .secondaryWake, .deliver .secondaryWake 0 false, .preference (.mode "1")] d event →
      d.Orderly asciiDigit event := by
    intro d event takes
    rcases takes.cons_cases rfl with ⟨rfl, rfl⟩ | takes
    · intro _ custom
      cases custom
    · rcases takes.cons_cases rfl with ⟨rfl, rfl⟩ | takes
      · trivial
      · rcases takes.cons_cases rfl with ⟨rfl, rfl⟩ | takes
        · intro stopped
          cases stopped
        · rcases takes.cons_cases rfl with ⟨rfl, rfl⟩ | takes
          · intro _ _
            decide
          · cases takes
  refine ⟨_, .later rfl (.later rfl (.later rfl (.later rfl (.here _ [])))), ?_, ?_⟩
  · rfl
  · exact armed_always unset _ events _ (.later rfl (.later rfl (.later rfl (.later rfl (.here _ []))))) rfl

/-- A secondary alarm that is delivered after `stop()` sets itself again. -/
theorem armed_late : ∃ d, Visits (step asciiDigit) (new unset)
    [.start, .fire .secondaryWake, .stop, .deliver .secondaryWake 0 false] d ∧ d.fired = [] ∧
    ¬ Armed d.scheduler := by
  refine ⟨_, .later rfl (.later rfl (.later rfl (.later rfl (.here _ [])))), rfl, ?_⟩
  intro armed
  cases armed.stopped rfl .secondaryWake

end Device

end OpenDelta.Schedule
