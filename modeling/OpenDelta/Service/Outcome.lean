import OpenDelta.Service.Effects
import OpenDelta.Service.Chain

/-!
# What a run offers

The file a run leaves as ready, route by route. A run offers the full build,
found on the storage or downloaded, or the result of a delta chain; nothing
else, and nothing after an error.
-/

namespace OpenDelta.Service

variable {E : Env} {C : Conditions} {args : Args}

/-! ## The `finally` block -/

theorem notifyUser_cases (w : World) :
    (notifyUser C args w).2 = w ∨ (notifyUser C args w).2 = w.emit .notification := by
  unfold notifyUser startNotification
  split
  · split
    · exact .inl rfl
    · simp only
      split
      · exact .inr rfl
      · exact .inl rfl
  · exact .inl rfl

variable (C args) in
theorem autoState_cases (w : World) :
    ∃ s, (autoState C args w).2 = w.lookAtStop.updateState s ∨
      (autoState C args w).2 = (w.lookAtStop.updateState s).emit .notification := by
  simp only [autoState]
  generalize (if C.stopDownload w.stopReads = true then autoDownloadCheck else args.checkOnly) = checkOnly
  split
  · split
    · exact ⟨_, notifyUser_cases _⟩
    · exact ⟨_, .inl rfl⟩
  · split
    · exact ⟨_, .inl rfl⟩
    · exact ⟨_, notifyUser_cases _⟩

theorem autoState_prefs (w : World) : (autoState C args w).2.prefs = w.prefs := by
  obtain ⟨s, eq | eq⟩ := autoState_cases C args w
  · rw [eq, World.updateState_prefs, World.lookAtStop_prefs]
  · rw [eq, World.emit_prefs, World.updateState_prefs, World.lookAtStop_prefs]

variable (C args) in
theorem autoState_emits (w : World) : Emits Event.isNotice w (autoState C args w).2 := by
  obtain ⟨s, eq | eq⟩ := autoState_cases C args w
  · rw [eq]
    exact .of_eq rfl rfl
  · rw [eq]
    exact .event .notification trivial rfl rfl

theorem shouldShowErrorNotification_prefs (w : World) : (shouldShowErrorNotification E w).prefs = w.prefs := by
  rw [shouldShowErrorNotification]
  split <;> rfl

theorem shouldShowErrorNotification_emits (w : World) : Emits Event.isNotice w (shouldShowErrorNotification E w) := by
  rw [shouldShowErrorNotification]
  split
  · exact .event .errorNotification trivial rfl rfl
  · exact .refl w

variable (E C args) in
/-- The `finally` block clears the preferences after an error, and only then. -/
theorem runFinally_prefs (w : World) : (runFinally E C args w).2.prefs =
    { (if w.state.isErrorState then w.prefs.clearState else w.prefs) with lastCheckTime := C.now } := by
  unfold runFinally
  by_cases error : w.state.isErrorState = true
  · simp only [error, if_true]
    split
    · rfl
    · exact shouldShowErrorNotification_prefs _
  · simp only [error, if_false, Bool.false_eq_true]
    split <;> exact autoState_prefs _

theorem runFinally_emits (w : World) : Emits Event.isNotice w (runFinally E C args w).2 := by
  unfold runFinally
  by_cases error : w.state.isErrorState = true
  · have shown := shouldShowErrorNotification_emits (E := E) { w with
      failedUpdateCount := w.failedUpdateCount + 1
      prefs := { w.prefs with lastCheckTime := C.now }.clearState }
    simp only [error, if_true]
    split
    · exact .of_eq rfl rfl
    · exact shown.congr rfl rfl rfl rfl
  · have shown := autoState_emits C args { w with
      prefs := { w.prefs with lastCheckTime := C.now }, failedUpdateCount := 0 }
    simp only [error, if_false, Bool.false_eq_true]
    split
    · exact shown.congr rfl rfl rfl rfl
    · exact shown.congr rfl rfl rfl rfl

theorem shouldShowErrorNotification_files (w : World) : (shouldShowErrorNotification E w).files = w.files := by
  rw [shouldShowErrorNotification]
  split <;> rfl

theorem autoState_files (w : World) : (autoState C args w).2.files = w.files := by
  obtain ⟨s, eq | eq⟩ := autoState_cases C args w
  · rw [eq]
    rfl
  · rw [eq]
    rfl

theorem runFinally_files (w : World) : (runFinally E C args w).2.files = w.files := by
  unfold runFinally
  by_cases error : w.state.isErrorState = true
  · simp only [error, if_true]
    split
    · rfl
    · exact shouldShowErrorNotification_files _
  · simp only [error, if_false, Bool.false_eq_true]
    split <;> exact autoState_files _

/-- What the `finally` block leaves as ready. -/
def World.offered (w : World) : Option String := if w.state.isErrorState then none else w.prefs.readyFilename

theorem World.offered_of_error {w : World} (error : w.state.isErrorState = true) : w.offered = none := if_pos error

theorem World.offered_of_sound {w : World} (sound : w.state.isErrorState = false) :
    w.offered = w.prefs.readyFilename := if_neg (by simp [sound])

theorem runFinally_ready (w : World) : (runFinally E C args w).2.prefs.readyFilename = w.offered := by
  rw [runFinally_prefs, World.offered]
  split <;> rfl

theorem conclude_world (w : World) : (conclude E C args w).world = (runFinally E C args w).2 := by
  rw [conclude]
  split <;> rfl

namespace Exit

def world : Exit → World
  | returned w => w
  | continued _ w => w
  | threw w => w
  | aborted w => w

/-- What is ready when the runnable is left this way. -/
def offered : Exit → Option String
  | returned w => w.offered
  | continued _ w => w.offered
  | threw w => w.offered
  | aborted w => w.prefs.readyFilename

end Exit

theorem settle_ready (exit : Exit) : (settle E C args exit).world.prefs.readyFilename = exit.offered := by
  cases exit with
  | returned w => exact (congrArg (fun w => w.prefs.readyFilename) (conclude_world w)).trans (runFinally_ready w)
  | continued full w => exact (congrArg (fun w => w.prefs.readyFilename) (conclude_world w)).trans (runFinally_ready w)
  | threw w => exact runFinally_ready w
  | aborted w => rfl

variable (E C args) in
theorem settle_emits (exit : Exit) : Emits Event.isNotice exit.world (settle E C args exit).world := by
  cases exit with
  | returned w =>
    apply Eq.subst (conclude_world w).symm
    exact runFinally_emits w
  | continued full w =>
    apply Eq.subst (conclude_world w).symm
    exact runFinally_emits w
  | threw w => exact runFinally_emits w
  | aborted w => exact .refl w

end OpenDelta.Service
