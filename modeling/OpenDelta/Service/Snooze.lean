import OpenDelta.Data.Runs
import OpenDelta.Service.Documents

/-!
# Snoozed notifications

A dismissed notification stores the time and, where a full build is named, that
build. The time is stored in any case, so that a dismissal without a named build
leaves the build of an earlier one in place.
-/

namespace OpenDelta.Service

/-- A notification the user dismissed, with the full build named then. -/
structure Dismissal where
  time : Int64
  latest : Option String

/-- The service with the dismissals so far, the last one first. -/
structure SnoozeState where
  world : World
  dismissals : List Dismissal

/-- What the snooze depends on: `clearState` by the settings, by flashing or by a
run, the full build a run names or withdraws, a dismissal, and a look at the
snooze. -/
inductive SnoozeEvent where
  | clear
  | name (latestFullName : Option String)
  | dismiss (now : Int64)
  | look (C : Conditions)

/-- `ACTION_NOTIFICATION_DELETED`. -/
def notificationDeleted (prefs : Prefs) (now : Int64) : Prefs :=
  let prefs := { prefs with lastSnoozeTime := now }
  match prefs.latestFullName with
  | some lastBuild => { prefs with snoozeUpdate := some lastBuild }
  | none => prefs

theorem notificationDeleted_lastSnoozeTime (prefs : Prefs) (now : Int64) :
    (notificationDeleted prefs now).lastSnoozeTime = now := by
  unfold notificationDeleted
  dsimp only
  split <;> rfl

theorem notificationDeleted_snoozeUpdate (prefs : Prefs) (now : Int64) :
    (notificationDeleted prefs now).snoozeUpdate = prefs.latestFullName.or prefs.snoozeUpdate := by
  unfold notificationDeleted
  dsimp only
  split
  · next build named => rw [named, Option.some_or]
  · next unnamed => rw [unnamed, Option.none_or]

namespace SnoozeState

variable (s : SnoozeState)

def step : SnoozeEvent → Option SnoozeState
  | .clear => some { s with world := s.world.setPrefs s.world.prefs.clearState }
  | .name latestFullName => some { s with world := s.world.setPrefs { s.world.prefs with latestFullName } }
  | .dismiss now =>
    some {
      world := s.world.setPrefs (notificationDeleted s.world.prefs now)
      dismissals := ⟨now, s.world.prefs.latestFullName⟩ :: s.dismissals }
  | .look _ => some s

/-- Nothing was ever dismissed. -/
structure Fresh : Prop where
  dismissals : s.dismissals = []
  lastSnoozeTime : s.world.prefs.lastSnoozeTime = 0
  snoozeUpdate : s.world.prefs.snoozeUpdate = none

/-- Times at most 24 hours apart. -/
def Near (now time : Int64) : Prop := (now.toInt - time.toInt).natAbs ≤ 86400000

instance (now time : Int64) : Decidable (Near now time) := inferInstanceAs (Decidable (_ ≤ _))

/-- The same with the arithmetic of `long`. -/
def timeSnooze (now time : Int64) : Bool := decide ((now - time).abs ≤ 86400000)

/-- The user dismissed a notification for this build near that time. -/
def DismissedNear (now : Int64) (build : String) : Prop :=
  ∃ d ∈ s.dismissals, d.latest = some build ∧ Near now d.time

/-- **The snooze is for one build**: it suppresses a notification for a build only
after a dismissal for it. -/
def SnoozesOneBuild (C : Conditions) : Prop :=
  ∀ build, s.world.prefs.latestFullName = some build → isSnoozeNotification C s.world = true → s.DismissedNear C.now build

/-- The build named at the last dismissal that had one. -/
def lastNamed (dismissals : List Dismissal) : Option String := dismissals.findSome? (·.latest)

/-- A look at the snooze near a stored time that is not that of a dismissal for
the build: near 1970 and never dismissed; after a dismissal without a named build,
where the build of an earlier one is none or this one; with times too far apart
for `long`. -/
inductive Stray (now : Int64) (build : String) : Prop where
  | never (dismissals : s.dismissals = []) (near : timeSnooze now 0)
  | unnamed (d : Dismissal) (earlier : List Dismissal) (dismissals : s.dismissals = d :: earlier) (latest : d.latest = none)
      (near : timeSnooze now d.time) (stored : lastNamed earlier = none ∨ lastNamed earlier = some build)
      (undismissed : ∀ d' ∈ earlier, d'.latest = some build → ¬ Near now d'.time)
  | overflow (d : Dismissal) (earlier : List Dismissal) (dismissals : s.dismissals = d :: earlier)
      (latest : d.latest = some build) (near : timeSnooze now d.time)
      (undismissed : ∀ d' ∈ s.dismissals, d'.latest = some build → ¬ Near now d'.time)

/-- What the preferences keep of the dismissals. -/
structure Recorded : Prop where
  lastSnoozeTime : s.world.prefs.lastSnoozeTime = (s.dismissals.head?.map (·.time)).getD 0
  snoozeUpdate : s.world.prefs.snoozeUpdate = lastNamed s.dismissals

variable {s} {s' : SnoozeState} {event : SnoozeEvent}

theorem Fresh.recorded (fresh : s.Fresh) : s.Recorded := by
  constructor
  · rw [fresh.lastSnoozeTime, fresh.dismissals]
    rfl
  · rw [fresh.snoozeUpdate, fresh.dismissals]
    rfl

theorem Recorded.step (recorded : s.Recorded) (taken : s.step event = some s') : s'.Recorded := by
  cases event with
  | clear =>
    cases taken
    exact ⟨recorded.lastSnoozeTime, recorded.snoozeUpdate⟩
  | name latest =>
    cases taken
    exact ⟨recorded.lastSnoozeTime, recorded.snoozeUpdate⟩
  | look C =>
    cases taken
    exact recorded
  | dismiss now =>
    cases taken
    constructor
    · exact notificationDeleted_lastSnoozeTime _ _
    · rw [show (s.world.setPrefs (notificationDeleted s.world.prefs now)).prefs = notificationDeleted s.world.prefs now from rfl,
        notificationDeleted_snoozeUpdate, recorded.snoozeUpdate, lastNamed, lastNamed, List.findSome?_cons]
      cases s.world.prefs.latestFullName <;> rfl

/-- When a look at the snooze suppresses the notification for a build. -/
theorem isSnoozeNotification_iff {C : Conditions} {w : World} {build : String} (named : w.prefs.latestFullName = some build) :
    isSnoozeNotification C w = true ↔ timeSnooze C.now w.prefs.lastSnoozeTime = true ∧
      (w.prefs.snoozeUpdate = none ∨ w.prefs.snoozeUpdate = some build) := by
  rw [isSnoozeNotification, named]
  cases w.prefs.snoozeUpdate with
  | none =>
    constructor
    · intro near
      exact ⟨near, .inl rfl⟩
    · intro snoozed
      exact snoozed.1
  | some snoozeBuild =>
    rw [Bool.and_eq_true, beq_iff_eq, ← timeSnooze]
    simp only [reduceCtorEq, false_or, Option.some.injEq, eq_comm]

theorem lastNamed_cons (d : Dismissal) (earlier : List Dismissal) :
    lastNamed (d :: earlier) = d.latest.or (lastNamed earlier) := by
  rw [lastNamed, List.findSome?_cons]
  cases d.latest <;> rfl

/-- A stray look suppresses a notification that was not dismissed. -/
theorem Stray.suppresses {now : Int64} {build : String} (stray : s.Stray now build) :
    timeSnooze now ((s.dismissals.head?.map (·.time)).getD 0) = true ∧
      (lastNamed s.dismissals = none ∨ lastNamed s.dismissals = some build) ∧ ¬ s.DismissedNear now build := by
  cases stray with
  | never dismissals near =>
    rw [DismissedNear, dismissals]
    refine ⟨near, .inl rfl, ?_⟩
    rintro ⟨d, within, -⟩
    cases within
  | unnamed d earlier dismissals latest near stored undismissed =>
    rw [DismissedNear, dismissals, lastNamed_cons, latest, Option.none_or]
    refine ⟨near, stored, ?_⟩
    rintro ⟨d', within, named, close⟩
    rcases List.mem_cons.mp within with rfl | within
    · cases latest.symm.trans named
    · exact undismissed d' within named close
  | overflow d earlier dismissals latest near undismissed =>
    rw [DismissedNear]
    rw [dismissals] at undismissed ⊢
    rw [lastNamed_cons, latest, Option.some_or]
    refine ⟨near, .inr rfl, ?_⟩
    rintro ⟨d', within, named, close⟩
    exact undismissed d' within named close

/-- Any other look that suppresses one follows its dismissal. -/
theorem Stray.of_suppressed {now : Int64} {build : String}
    (near : timeSnooze now ((s.dismissals.head?.map (·.time)).getD 0) = true)
    (stored : lastNamed s.dismissals = none ∨ lastNamed s.dismissals = some build) (undismissed : ¬ s.DismissedNear now build) :
    s.Stray now build := by
  have far : ∀ d ∈ s.dismissals, d.latest = some build → ¬ Near now d.time :=
    fun d within named close => undismissed ⟨d, within, named, close⟩
  cases dismissals : s.dismissals with
  | nil =>
    rw [dismissals] at near
    exact .never dismissals near
  | cons d earlier =>
    rw [dismissals, lastNamed_cons] at stored
    rw [dismissals] at near
    cases latest : d.latest with
    | none =>
      rw [latest, Option.none_or] at stored
      refine .unnamed d earlier dismissals latest near stored fun d' within => far d' ?_
      rw [dismissals]
      exact List.mem_cons_of_mem d within
    | some snoozeBuild =>
      rw [latest, Option.some_or] at stored
      rcases stored with unset | same
      · cases unset
      · exact .overflow d earlier dismissals (latest.trans same) near far

/-- A look at the snooze, by the dismissals. -/
theorem Recorded.snoozesOneBuild_iff (recorded : s.Recorded) (C : Conditions) :
    s.SnoozesOneBuild C ↔ ∀ build, s.world.prefs.latestFullName = some build → ¬ s.Stray C.now build := by
  refine forall_congr' fun build => forall_congr' fun named => ?_
  rw [isSnoozeNotification_iff named, recorded.lastSnoozeTime, recorded.snoozeUpdate]
  constructor
  · intro snoozesOne stray
    obtain ⟨near, stored, undismissed⟩ := stray.suppresses
    exact undismissed (snoozesOne ⟨near, stored⟩)
  · rintro followed ⟨near, stored⟩
    by_contra undismissed
    exact followed (.of_suppressed near stored undismissed)

/-- **In a run the snooze is for one build exactly if no look at it is stray.** -/
theorem snoozesOneBuild_run_iff {s₀ : SnoozeState} {events : List SnoozeEvent} (fresh : s₀.Fresh) :
    (∀ s C, Takes step s₀ events s (.look C) → s.SnoozesOneBuild C) ↔
      ∀ s C, Takes step s₀ events s (.look C) → ∀ build, s.world.prefs.latestFullName = some build →
        ¬ s.Stray C.now build := by
  have recorded : ∀ s event, Takes step s₀ events s event → s.Recorded :=
    fun s event takes => takes.visits.stable (fun _ _ _ inv taken => inv.step taken) fresh.recorded
  constructor
  · intro snoozesOne s C takes
    exact ((recorded s _ takes).snoozesOneBuild_iff C).mp (snoozesOne s C takes)
  · intro followed s C takes
    exact ((recorded s _ takes).snoozesOneBuild_iff C).mpr (followed s C takes)

/-- A new installation. -/
def installed : SnoozeState := ⟨.idle [], []⟩

theorem installed_fresh : installed.Fresh := ⟨rfl, rfl, rfl⟩

def readingAt (now : Int64) : Conditions := { Conditions.calm with now }

/-- The build is dismissed, and the next run does not show it. -/
theorem snoozed_dismissed : installed.Fresh ∧ ∀ s C, Takes step installed
    [.name (some "omni-b.zip"), .dismiss 1441180800000, .look (readingAt 1441184400000)] s (.look C) →
    s.SnoozesOneBuild C := by
  refine ⟨installed_fresh, (snoozesOneBuild_run_iff installed_fresh).mpr fun s C takes build named stray => ?_⟩
  rcases takes.cons_cases rfl with ⟨-, different⟩ | takes
  · cases different
  · rcases takes.cons_cases rfl with ⟨-, different⟩ | takes
    · cases different
    · rcases takes.cons_cases rfl with ⟨rfl, same⟩ | takes
      · cases same
        cases named
        have undismissed := stray.suppresses.2.2
        exact undismissed ⟨_, List.mem_cons_self, rfl, by decide⟩
      · cases takes

/-- A notification is dismissed after the settings have forgotten its build; the
next build is not shown. -/
theorem snoozed_cleared : ¬ ∀ s C, Takes step installed
    [.name (some "omni-b.zip"), .clear, .dismiss 1441180800000, .name (some "omni-c.zip"), .look (readingAt 1441184400000)]
    s (.look C) → s.SnoozesOneBuild C := by
  intro snoozesOne
  have followed := snoozesOne _ _ (.later rfl (.later rfl (.later rfl (.later rfl (.here [] rfl))))) "omni-c.zip" rfl
  obtain ⟨d, within, named, -⟩ := followed (by decide)
  cases List.mem_singleton.mp within
  cases named

end SnoozeState

end OpenDelta.Service
