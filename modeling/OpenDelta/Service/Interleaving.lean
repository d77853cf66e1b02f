import OpenDelta.Data.Runs
import OpenDelta.Service.Reports
import OpenDelta.Service.Requests
import OpenDelta.Service.Snooze

/-!
# The main thread beside a run

A runnable executes one report and one stored preference at a time, and between
any two of its steps the main thread handles an event. `autoState` asks whether
an error is shown, and not whether a run goes on, so that a run keeps its state
on display exactly where no `ACTION_UPDATE` comes in between.
-/

namespace OpenDelta.Service

/-- A state that a running check is to show. -/
def ServiceState.isBusy (s : ServiceState) : Bool := s.isProgressState || s.isErrorState

/-- `ACTION_UPDATE`: `autoState` for a check, without a notification. For a check
it makes no difference whether the download is to stop. -/
def actionUpdate (w : World) : World :=
  if w.state.isErrorState then w else { w with state := (autoState .calm ⟨true, autoDownloadCheck⟩ w).2.state }

def World.perform (w : World) (step : RunStep) : World :=
  { w with state := (step.perform w.display).state, prefs := (step.perform w.display).prefs }

/-- A runnable in its `try` block, with the steps it still has to take. -/
structure Runnable where
  E : Env
  C : Conditions
  args : Args
  todo : List RunStep
  ends : Bool

/-- The `finally` block is reached: the fetch loop ends, and the process survives. -/
def reachesFinally : Option Exit → Bool
  | none => false
  | some (.aborted _) => false
  | some _ => true

/-- The runnable with the arguments, as it begins in a world. -/
def Runnable.new (E : Env) (C : Conditions) (args : Args) (fuel : Nat) (w : World) : Runnable where
  E
  C
  args
  todo := runSteps E C args fuel w
  ends := reachesFinally (runBody E C args fuel w)

/-- What the threads share. -/
structure Shared where
  world : World
  posted : List Args
  runnable : Option Runnable

/-- An event on the main thread, or a step of the handler thread. `clear` is
flashing or the clean-up of the settings, which may take preferences and files
away from a runnable: what this goes on to do is left open then, but for the
states it can report. `storage` is a change of the files by whomever; the steps
a runnable has left are those planned when it began, whatever files are there. -/
inductive Move where
  | request (L : Listeners) (args : Args)
  | update
  | secureMode (value : Option Bool)
  | notificationDeleted (now : Int64)
  | clear (todo : List RunStep)
  | storage (files : FileStore)
  | begin (E : Env) (C : Conditions) (fuel : Nat)
  | step
  | finish

namespace Shared

def idle (w : World) : Shared where
  world := { w with updateRunning := false }
  posted := []
  runnable := none

variable (s : Shared)

/-- A move, where it can be made. -/
def step : Move → Option Shared
  | .request L args =>
    some { s with
      world := (checkForUpdates L args s.world).2
      posted := s.posted ++ (checkForUpdates L args s.world).1.toList }
  | .update => some { s with world := actionUpdate s.world }
  | .secureMode value => some { s with world := s.world.setPrefs { s.world.prefs with secureMode := value } }
  | .notificationDeleted now =>
    some { s with world := s.world.setPrefs (OpenDelta.Service.notificationDeleted s.world.prefs now) }
  | .clear todo =>
    if reports todo ⊆ runStates then
      some { s with
        world := s.world.setPrefs s.world.prefs.clearState
        runnable := s.runnable.map fun r => { r with todo } }
    else none
  | .storage files => some { s with world := { s.world with files } }
  | .begin E C fuel =>
    match s.runnable, s.posted with
    | none, args :: posted =>
      some
        { world := { s.world with updateRunning := true }
          posted
          runnable := some (.new E C args fuel s.world) }
    | _, _ => none
  | .step =>
    match s.runnable with
    | none => none
    | some r =>
      match r.todo with
      | [] => none
      | next :: todo => some { s with world := s.world.perform next, runnable := some { r with todo } }
  | .finish =>
    match s.runnable with
    | none => none
    | some r =>
      if r.todo = [] ∧ r.ends = true then
        some { s with world := (runFinally r.E r.C r.args s.world).2, runnable := none }
      else none

/-- While a runnable is in its `try` block, progress or an error is shown. -/
def Owned : Prop := s.runnable.isSome = true → s.world.state.isBusy = true

/-- An `ACTION_UPDATE` finds no runnable in its `try` block, or an error; and a
runnable begins while its request is still shown as progress, or an error is. -/
def Undisturbed : Move → Prop
  | .update => s.runnable.isSome = true → s.world.state.isErrorState = true
  | .begin .. => s.world.state.isBusy = true
  | _ => True

/-- What the proof carries: the steps to come are such as a run takes. -/
structure Steady : Prop where
  owned : s.Owned
  todo : ∀ r, s.runnable = some r → reports r.todo ⊆ runStates

end Shared

/-! ## Events on the main thread -/

theorem actionUpdate_cases (w : World) : (w.state.isErrorState = true ∧ actionUpdate w = w) ∨
    w.state.isErrorState = false ∧ (actionUpdate w).state.isBusy = false := by
  unfold actionUpdate
  cases error : w.state.isErrorState with
  | true => exact .inl ⟨rfl, if_pos rfl⟩
  | false =>
    refine .inr ⟨rfl, ?_⟩
    rw [if_neg Bool.false_ne_true]
    rcases autoState_state .calm ⟨true, autoDownloadCheck⟩ w with shown | shown | shown
    · simp only [shown]
      rfl
    · simp only [shown]
      rfl
    · simp only [shown]
      rfl

/-- A request shows that it is checked, or why it is refused, or nothing. -/
theorem checkForUpdates_busy {L : Listeners} {args : Args} {w : World} (busy : w.state.isBusy = true) :
    (checkForUpdates L args w).2.state.isBusy = true := by
  unfold checkForUpdates
  split
  · exact busy
  · split
    · exact busy
    · split
      · rfl
      · split
        · rfl
        · split
          · rfl
          · exact busy

/-! ## Runs of both threads -/

namespace Shared

variable {s s' : Shared} {move : Move}

theorem steady_of_same (steady : s.Steady) (runnable : s'.runnable = s.runnable)
    (state : s.world.state.isBusy = true → s'.world.state.isBusy = true) : s'.Steady := by
  refine ⟨fun running => ?_, fun r some => ?_⟩
  · rw [runnable] at running
    exact state (steady.owned running)
  · rw [runnable] at some
    exact steady.todo r some

/-- A step of the runnable shows what a run shows. -/
theorem step_steady (steady : s.Steady) (undisturbed : s.Undisturbed move) (taken : s.step move = some s') :
    s'.Steady := by
  cases move with
  | request L args =>
    cases taken
    exact steady_of_same steady rfl checkForUpdates_busy
  | update =>
    cases taken
    refine ⟨fun running => ?_, steady.todo⟩
    rcases actionUpdate_cases s.world with ⟨-, same⟩ | ⟨sound, -⟩
    · simp only [same]
      exact steady.owned running
    · rw [undisturbed running] at sound
      cases sound
  | secureMode value =>
    cases taken
    exact steady_of_same steady rfl id
  | notificationDeleted now =>
    cases taken
    exact steady_of_same steady rfl id
  | clear todo =>
    simp only [step] at taken
    split at taken
    · next possible =>
      cases taken
      refine ⟨fun running => ?_, fun r some => ?_⟩
      · rw [Option.isSome_map] at running
        exact steady.owned running
      · obtain ⟨r', -, rfl⟩ := Option.map_eq_some_iff.mp some
        exact possible
    · cases taken
  | storage files =>
    cases taken
    exact steady_of_same steady rfl id
  | begin E C fuel =>
    simp only [step] at taken
    split at taken
    · cases taken
      refine ⟨fun _ => undisturbed, fun r some => ?_⟩
      cases some
      exact runSteps_reports ..
    · cases taken
  | step =>
    simp only [step] at taken
    split at taken
    · cases taken
    · next r running =>
      split at taken
      · cases taken
      · next next todo todos =>
        cases taken
        have known := steady.todo r running
        rw [todos] at known
        cases next with
        | report state =>
          rw [reports_report, List.cons_subset] at known
          refine ⟨fun _ => runStates_busy state known.1, fun r some => ?_⟩
          cases some
          exact known.2
        | store edit =>
          refine ⟨fun _ => steady.owned (by rw [running]; rfl), fun r some => ?_⟩
          cases some
          exact known
  | finish =>
    simp only [step] at taken
    split at taken
    · cases taken
    · split at taken
      · cases taken
        exact ⟨fun running => (Bool.false_ne_true running).elim, fun r some => by cases some⟩
      · cases taken

theorem idle_steady (w : World) : (idle w).Steady :=
  ⟨fun running => (Bool.false_ne_true running).elim, fun r some => by cases some⟩

/-- A disturbance shows. -/
theorem not_owned_of_disturbed (disturbed : ¬ s.Undisturbed move) (taken : s.step move = some s') : ¬ s'.Owned := by
  intro owned
  cases move with
  | update =>
    cases taken
    refine disturbed fun running => ?_
    rcases actionUpdate_cases s.world with ⟨error, -⟩ | ⟨-, shown⟩
    · exact error
    · cases shown.symm.trans (owned running)
  | begin E C fuel =>
    simp only [step] at taken
    split at taken
    · cases taken
      exact disturbed (owned rfl)
    · cases taken
  | request L args => exact disturbed trivial
  | secureMode value => exact disturbed trivial
  | notificationDeleted now => exact disturbed trivial
  | clear todo => exact disturbed trivial
  | storage files => exact disturbed trivial
  | step => exact disturbed trivial
  | finish => exact disturbed trivial

/-- **A running check owns the displayed state**, in a run of the two threads,
exactly where every `ACTION_UPDATE` finds no runnable or an error, and every
runnable begins under progress or an error. -/
theorem owned_iff (w : World) (moves : List Move) :
    (∀ s, Visits step (idle w) moves s → s.Owned) ↔
      ∀ s move, Takes step (idle w) moves s move → s.Undisturbed move := by
  constructor
  · intro owned s move takes
    obtain ⟨s', taken⟩ := takes.taken
    by_contra disturbed
    exact not_owned_of_disturbed disturbed taken (owned s' (takes.visits_next taken))
  · intro undisturbed s visits
    exact (visits.invariant Steady (fun _ _ _ steady ok taken => step_steady steady ok taken)
      (idle_steady w) undisturbed).owned

/-! ### Events between the checks -/

/-- The event comes between the checks: an `ACTION_UPDATE` with no runnable posted
or in its `try` block, or under an error, and a check with none posted. -/
def Between (s : Shared) : Move → Prop
  | .update => s.posted ≠ [] ∨ s.runnable.isSome = true → s.world.state.isErrorState = true
  | .request L args => (checkForUpdates L args s.world).1.isSome = true → s.posted = []
  | _ => True

/-- At most one runnable is on its way, and its progress is shown. -/
structure Orderly (s : Shared) : Prop where
  busy : s.posted ≠ [] ∨ s.runnable.isSome = true → s.world.state.isBusy = true
  single : s.posted.length ≤ 1
  alone : s.runnable.isSome = true → s.posted = [] ∧ s.world.updateRunning = true

theorem actionUpdate_updateRunning (w : World) : (actionUpdate w).updateRunning = w.updateRunning := by
  unfold actionUpdate
  split <;> rfl

theorem orderly_of_same (orderly : s.Orderly) (posted : s'.posted = s.posted)
    (runnable : s'.runnable.isSome = s.runnable.isSome) (state : s'.world.state = s.world.state)
    (flag : s'.world.updateRunning = s.world.updateRunning) : s'.Orderly := by
  refine ⟨?_, ?_, ?_⟩
  · rw [posted, runnable, state]
    exact orderly.busy
  · rw [posted]
    exact orderly.single
  · rw [posted, runnable, flag]
    exact orderly.alone

/-- A check that is posted is shown. -/
theorem checkForUpdates_posted {L : Listeners} {args : Args} {w : World}
    (posted : (checkForUpdates L args w).1.isSome = true) : (checkForUpdates L args w).2.state = .checking := by
  have refused : ∀ {w' : World}, ((none : Option Args), w').1.isSome = true → w'.state = .checking := fun posted =>
    (Bool.false_ne_true posted).elim
  revert posted
  unfold checkForUpdates
  split
  · exact refused
  · split
    · exact refused
    · split
      · exact refused
      · split
        · exact refused
        · split
          · exact fun _ => rfl
          · exact refused

theorem request_orderly {L : Listeners} {args : Args} (orderly : s.Orderly)
    (between : (checkForUpdates L args s.world).1.isSome = true → s.posted = [])
    (taken : s.step (.request L args) = some s') : s'.Orderly := by
  cases taken
  cases posts : (checkForUpdates L args s.world).1 with
  | none =>
    refine ⟨?_, ?_, ?_⟩
    · simp only [Option.toList_none, List.append_nil]
      exact fun awaited => checkForUpdates_busy (orderly.busy awaited)
    · simp only [Option.toList_none, List.append_nil]
      exact orderly.single
    · simp only [Option.toList_none, List.append_nil, checkForUpdates_updateRunning]
      exact orderly.alone
  | some args' =>
    have some : (checkForUpdates L args s.world).1.isSome = true := by
      rw [posts]
      rfl
    have empty := between some
    refine ⟨fun _ => ?_, ?_, fun running => ?_⟩
    · simp only [checkForUpdates_posted some]
      rfl
    · simp only [empty]
      exact Nat.le_refl 1
    · -- While a runnable executes nothing is posted.
      rw [checkForUpdates_of_busy (orderly.alone running).2] at some
      cases some

theorem step_orderly (orderly : s.Orderly) (steady : s.Steady) (between : s.Between move)
    (taken : s.step move = some s') : s'.Orderly := by
  cases move with
  | request L args => exact request_orderly orderly between taken
  | update =>
    cases taken
    refine ⟨fun awaited => ?_, orderly.single, fun running => ?_⟩
    · rcases actionUpdate_cases s.world with ⟨-, same⟩ | ⟨sound, -⟩
      · simp only [same]
        exact orderly.busy awaited
      · rw [between awaited] at sound
        cases sound
    · simp only [actionUpdate_updateRunning]
      exact orderly.alone running
  | secureMode value =>
    cases taken
    exact orderly_of_same orderly rfl rfl rfl rfl
  | notificationDeleted now =>
    cases taken
    exact orderly_of_same orderly rfl rfl rfl rfl
  | clear todo =>
    simp only [step] at taken
    split at taken
    · cases taken
      exact orderly_of_same orderly rfl (Option.isSome_map ..) rfl rfl
    · cases taken
  | storage files =>
    cases taken
    exact orderly_of_same orderly rfl rfl rfl rfl
  | begin E C fuel =>
    simp only [step] at taken
    split at taken
    · next args posted _ waiting =>
      cases taken
      have single := orderly.single
      rw [waiting] at single
      have last : posted = [] := List.length_eq_zero_iff.mp (Nat.le_zero.mp (Nat.le_of_succ_le_succ single))
      exact ⟨fun _ => orderly.busy (.inl (by rw [waiting]; exact List.cons_ne_nil _ _)),
        Nat.le_of_lt single, fun _ => ⟨last, rfl⟩⟩
    · cases taken
  | step =>
    have steady' : s'.Steady := step_steady steady (show s.Undisturbed .step from trivial) taken
    have owned := steady'.owned
    simp only [step] at taken
    split at taken
    · cases taken
    · next r running =>
      have executing : s.runnable.isSome = true := by
        rw [running]
        rfl
      split at taken
      · cases taken
      · cases taken
        exact ⟨fun _ => owned rfl, orderly.single, fun _ => orderly.alone executing⟩
  | finish =>
    simp only [step] at taken
    split at taken
    · cases taken
    · next r running =>
      have executing : s.runnable.isSome = true := by
        rw [running]
        rfl
      split at taken
      · cases taken
        refine ⟨fun awaited => ?_, orderly.single, fun running => (Bool.false_ne_true running).elim⟩
        rcases awaited with waiting | running
        · exact absurd (orderly.alone executing).1 waiting
        · exact (Bool.false_ne_true running).elim
      · cases taken

/-- Between the checks no event disturbs them. -/
theorem undisturbed_of_between (orderly : s.Orderly) (between : s.Between move) (taken : s.step move = some s') :
    s.Undisturbed move := by
  cases move with
  | update => exact fun running => between (.inr running)
  | begin E C fuel =>
    simp only [step] at taken
    split at taken
    · next args posted _ waiting => exact orderly.busy (.inl (by rw [waiting]; exact List.cons_ne_nil _ _))
    · cases taken
  | request L args => trivial
  | secureMode value => trivial
  | notificationDeleted now => trivial
  | clear todo => trivial
  | storage files => trivial
  | step => trivial
  | finish => trivial

theorem idle_orderly (w : World) : (idle w).Orderly :=
  ⟨fun awaited => awaited.elim (fun waiting => absurd rfl waiting) fun running => (Bool.false_ne_true running).elim,
    Nat.zero_le 1, fun running => (Bool.false_ne_true running).elim⟩

/-- So a run whose events come between the checks leaves their state alone. -/
theorem owned_of_between {w : World} {moves : List Move}
    (between : ∀ s move, Takes step (idle w) moves s move → s.Between move) :
    ∀ s, Visits step (idle w) moves s → s.Owned := by
  intro s visits
  refine (visits.invariant (fun s : Shared => s.Orderly ∧ s.Steady) ?_ ⟨idle_orderly w, idle_steady w⟩ between).2.owned
  intro s move s' inv between taken
  have undisturbed := undisturbed_of_between inv.1 between taken
  exact ⟨step_orderly inv.1 inv.2 between taken, step_steady inv.2 undisturbed taken⟩

end Shared

/-! ### An app that is opened during a check -/

/-- `omni-b` is advertised. -/
def advertisedWorld : World :=
  currentWorld.setPrefs { currentWorld.prefs with latestFullName := some "omni-b.zip", latestDeltaName := some "omni-b.zip" }

/-- A check has cleared the two names and nothing else when the app is opened. -/
def openedMoves : List Move :=
  [.request Threads.allGranted ⟨true, autoDownloadCheck⟩, .begin currentServer.env .calm 2, .step, .step, .update]

/-- The app shows that there is no update while the check goes on. -/
theorem shown_half_cleared : ∃ s, Visits Shared.step (Shared.idle advertisedWorld) openedMoves s ∧
    s.runnable.isSome = true ∧ s.world.state = .none ∧ ¬ s.Owned := by
  refine ⟨_, .later rfl (.later rfl (.later rfl (.later rfl (.later rfl (.here _ _))))), rfl, by decide, ?_⟩
  exact fun owned => absurd (owned rfl) (by decide)

end OpenDelta.Service
