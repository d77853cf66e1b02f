import OpenDelta.Data.JavaString
import OpenDelta.Data.Runs

/-!
# The gates of automatic downloads

`BatteryState` and `NetworkState` keep a decision that depends on what the system
broadcasts and on the settings. The network gate decides anew when either
changes, the battery gate only on broadcasts.
-/

namespace OpenDelta.Service
open JavaString

/-! ## `BatteryState` -/

/-- The settings of the battery gate; `none` is a preference not set. -/
structure BatteryPrefs where
  chargeOnly : Option Bool
  batteryLevel : Option String

namespace BatteryPrefs

variable (digit : Char → Option Nat) (prefs : BatteryPrefs)

def getChargeOnly : Bool := prefs.chargeOnly.getD true

/-- `none` is a `NumberFormatException`. -/
def getMinLevel : Option Int := integerValueOf digit (prefs.batteryLevel.getD "50")

end BatteryPrefs

/-- `BATTERY_STATUS_CHARGING` or `BATTERY_STATUS_FULL`. -/
def isCharging (status : Int) : Bool := status == 2 || status == 5

/-- What `updateState` decides. -/
def batteryAllows (minLevel : Int) (chargeOnly : Bool) (level : Int) (charging : Bool) : Bool :=
  (charging && chargeOnly) || (decide (minLevel ≤ level) && !chargeOnly)

/-- A started `BatteryState`. -/
structure BatteryState where
  stateLast : Option Bool
  minLevel : Int
  chargeOnly : Bool

namespace BatteryState

variable (digit : Char → Option Nat) (b : BatteryState)

def updateState (level : Int) (charging : Bool) : BatteryState :=
  let state := batteryAllows b.minLevel b.chargeOnly level charging
  if b.stateLast ≠ some state then { b with stateLast := some state } else b

/-- `onReceive` of a battery broadcast. -/
def onReceive (status level : Int) : BatteryState := b.updateState level (isCharging status)

/-- `start`, with the values the service reads for it. -/
def start (prefs : BatteryPrefs) : Option BatteryState := do
  let minLevel ← prefs.getMinLevel digit
  return { stateLast := none, minLevel, chargeOnly := prefs.getChargeOnly }

def onSharedPreferenceChanged (prefs : BatteryPrefs) : Option BatteryState := do
  let minLevel ← prefs.getMinLevel digit
  return { b with chargeOnly := prefs.getChargeOnly, minLevel }

def getState : Bool := b.stateLast.getD false

theorem updateState_getState (level : Int) (charging : Bool) :
    (b.updateState level charging).getState = batteryAllows b.minLevel b.chargeOnly level charging := by
  rw [updateState]
  split
  · rfl
  · rename_i same
    rw [getState, Decidable.not_not.mp same]
    rfl

theorem updateState_settings (level : Int) (charging : Bool) :
    (b.updateState level charging).minLevel = b.minLevel ∧
      (b.updateState level charging).chargeOnly = b.chargeOnly := by
  rw [updateState]
  split <;> exact ⟨rfl, rfl⟩

end BatteryState

/-- A started battery gate with the stored settings and the last broadcast. -/
structure BatteryGate where
  prefs : BatteryPrefs
  battery : BatteryState
  received : Option (Int × Int)

/-- A broadcast with its status and level, or new settings. -/
inductive BatteryEvent where
  | broadcast (status level : Int)
  | change (prefs : BatteryPrefs)

namespace BatteryGate

variable (digit : Char → Option Nat)

/-- `none` is an exception, which ends the process. -/
def step (g : BatteryGate) : BatteryEvent → Option BatteryGate
  | .broadcast status level =>
    some { g with battery := g.battery.onReceive status level, received := some (status, level) }
  | .change prefs => do
    let battery ← g.battery.onSharedPreferenceChanged digit prefs
    return { g with prefs, battery }

def start (prefs : BatteryPrefs) : Option BatteryGate := do
  let battery ← BatteryState.start digit prefs
  return { prefs, battery, received := none }

/-- The policy on a broadcast, for these settings. -/
def policy (prefs : BatteryPrefs) (broadcast : Int × Int) : Option Bool :=
  (prefs.getMinLevel digit).map fun minLevel =>
    batteryAllows minLevel prefs.getChargeOnly broadcast.2 (isCharging broadcast.1)

/-- **The gate says what the policy says** on the last broadcast. -/
def FollowsPolicy (g : BatteryGate) : Prop :=
  ∀ broadcast, g.received = some broadcast → policy digit g.prefs broadcast = some g.battery.getState

/-- New settings that decide on the last broadcast as the old ones did. -/
def Unaffected (g : BatteryGate) (prefs : BatteryPrefs) : Prop :=
  ∀ broadcast, g.received = some broadcast → policy digit prefs broadcast = policy digit g.prefs broadcast

/-- The fields are those of the stored settings. -/
structure InStep (g : BatteryGate) : Prop where
  minLevel : g.prefs.getMinLevel digit = some g.battery.minLevel
  chargeOnly : g.prefs.getChargeOnly = g.battery.chargeOnly

variable {digit} {g g' : BatteryGate} {prefs : BatteryPrefs}

/-- New settings reach the fields, and nothing else. -/
theorem step_change (taken : step digit g (.change prefs) = some g') :
    InStep digit g' ∧ g'.prefs = prefs ∧ g'.received = g.received ∧ g'.battery.stateLast = g.battery.stateLast := by
  cases readable : prefs.getMinLevel digit with
  | none => simp [step, BatteryState.onSharedPreferenceChanged, readable] at taken
  | some minLevel =>
    simp only [step, BatteryState.onSharedPreferenceChanged, readable, Option.bind_eq_bind, Option.bind_some,
      Option.pure_def, Option.some.injEq] at taken
    subst taken
    exact ⟨⟨readable, rfl⟩, rfl, rfl, rfl⟩

theorem InStep.start (started : start digit prefs = some g) : InStep digit g ∧ g.received = none := by
  cases readable : prefs.getMinLevel digit with
  | none => simp [BatteryGate.start, BatteryState.start, readable] at started
  | some minLevel =>
    simp only [BatteryGate.start, BatteryState.start, readable, Option.bind_eq_bind, Option.bind_some,
      Option.pure_def, Option.some.injEq] at started
    subst started
    exact ⟨⟨readable, rfl⟩, rfl⟩

/-- A broadcast is decided on at once. -/
theorem step_broadcast (inStep : InStep digit g) {status level : Int}
    (taken : step digit g (.broadcast status level) = some g') : InStep digit g' ∧ FollowsPolicy digit g' := by
  cases taken
  have settings := g.battery.updateState_settings level (isCharging status)
  refine ⟨⟨inStep.minLevel.trans (congrArg some settings.1.symm), inStep.chargeOnly.trans settings.2.symm⟩, ?_⟩
  rintro broadcast received
  cases received
  have decided := g.battery.updateState_getState level (isCharging status)
  simp only [policy, inStep.minLevel, inStep.chargeOnly, Option.map_some]
  exact congrArg some decided.symm

theorem InStep.step {event : BatteryEvent} (inStep : InStep digit g) (taken : step digit g event = some g') :
    InStep digit g' := by
  cases event with
  | broadcast status level => exact (step_broadcast inStep taken).1
  | change prefs => exact (step_change taken).1

/-- **The gate follows the policy throughout a run exactly if no change of the
settings would decide otherwise on the last broadcast.** -/
theorem followsPolicy_iff {events : List BatteryEvent} (started : start digit prefs = some g) :
    (∀ t, Visits (step digit) g events t → FollowsPolicy digit t) ↔
      ∀ t p, Takes (step digit) g events t (.change p) → Unaffected digit t p := by
  have first := InStep.start started
  constructor
  · intro follows t p takes broadcast received
    obtain ⟨t', taken⟩ := takes.taken
    obtain ⟨-, stored, same, kept⟩ := step_change taken
    have before := follows t takes.visits broadcast received
    have after := follows t' (takes.visits_next taken) broadcast (same.trans received)
    rw [stored] at after
    rw [after, before, BatteryState.getState, BatteryState.getState, kept]
  · intro unaffected t visits
    have keeps : ∀ t event t', InStep digit t ∧ FollowsPolicy digit t →
        (∀ p, event = .change p → Unaffected digit t p) → step digit t event = some t' →
        InStep digit t' ∧ FollowsPolicy digit t' := by
      rintro t event t' ⟨inStep, follows⟩ ok taken
      refine ⟨inStep.step taken, ?_⟩
      cases event with
      | broadcast status level => exact (step_broadcast inStep taken).2
      | change p =>
        obtain ⟨-, stored, same, kept⟩ := step_change taken
        intro broadcast received
        rw [same] at received
        rw [stored, ok p rfl broadcast received, follows broadcast received, BatteryState.getState,
          BatteryState.getState, kept]
    have silent : FollowsPolicy digit g := by
      intro broadcast received
      rw [first.2] at received
      cases received
    refine (visits.invariant _ keeps ⟨first.1, silent⟩ ?_).2
    rintro t event takes p rfl
    exact unaffected t p takes

/-- The digits of ASCII. -/
def asciiDigit (c : Char) : Option Nat := if '0' ≤ c ∧ c ≤ '9' then some (c.toNat - '0'.toNat) else none

/-- Charging is not asked for, and 20 percent are enough. -/
def relaxedPrefs : BatteryPrefs := ⟨some false, some "20"⟩

def relaxedGate : BatteryGate := ⟨relaxedPrefs, ⟨none, 20, false⟩, none⟩

theorem relaxedGate_start : start asciiDigit relaxedPrefs = some relaxedGate := rfl

/-- A discharging battery at 60 percent. -/
theorem relaxedGate_follows : start asciiDigit relaxedPrefs = some relaxedGate ∧
    ∀ t, Visits (step asciiDigit) relaxedGate [.broadcast 3 60] t → FollowsPolicy asciiDigit t := by
  refine ⟨relaxedGate_start, (followsPolicy_iff relaxedGate_start).mpr fun t p takes => ?_⟩
  rcases Takes.cons_cases rfl takes with ⟨-, different⟩ | later
  · cases different
  · cases later

/-- When charging is asked for afterwards, the gate stays open until the next broadcast. -/
theorem relaxedGate_stale :
    ¬ ∀ t, Visits (step asciiDigit) relaxedGate [.broadcast 3 60, .change ⟨some true, some "20"⟩] t →
      FollowsPolicy asciiDigit t := by
  intro follows
  have last := follows _ (.later rfl (.later rfl (.here _ _))) (3, 60) rfl
  revert last
  decide

end BatteryGate

end OpenDelta.Service
