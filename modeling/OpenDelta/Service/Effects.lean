import OpenDelta.Service.Check

/-!
# What each step changes

`Emits P` relates the worlds around a step that only adds events in `P` to the
trace. Downloads and native steps leave the preferences alone; a download that
goes through leaves bytes with the wanted MD5 in its file.
-/

namespace OpenDelta.Service
open JavaString

/-- From `w` to `w'` the trace grows by events in `P`. -/
structure Emits (P : Event → Prop) (w w' : World) : Prop where
  resolve : w'.files.resolve = w.files.resolve
  trace : ∃ more, w'.trace = w.trace ++ more ∧ ∀ e ∈ more, P e

namespace Emits

variable {P Q : Event → Prop} {w w' w'' : World}

theorem refl (w : World) : Emits P w w := ⟨rfl, [], by simp⟩

theorem trans (first : Emits P w w') (second : Emits P w' w'') : Emits P w w'' := by
  obtain ⟨more, grown, all⟩ := first.trace
  obtain ⟨more', grown', all'⟩ := second.trace
  refine ⟨second.resolve.trans first.resolve, more ++ more', by rw [grown', grown, List.append_assoc], ?_⟩
  intro e member
  rcases List.mem_append.mp member with member | member
  · exact all e member
  · exact all' e member

theorem weaken (emits : Emits P w w') (implies : ∀ e, P e → Q e) : Emits Q w w' := by
  obtain ⟨more, grown, all⟩ := emits.trace
  exact ⟨emits.resolve, more, grown, fun e member => implies e (all e member)⟩

/-- A step that leaves trace and paths alone. -/
theorem of_eq (resolve : w'.files.resolve = w.files.resolve) (trace : w'.trace = w.trace) : Emits P w w' :=
  ⟨resolve, [], by rw [trace, List.append_nil], by simp⟩

/-- A step that only adds one event. -/
theorem event (e : Event) (holds : P e) (resolve : w'.files.resolve = w.files.resolve)
    (trace : w'.trace = w.trace ++ [e]) : Emits P w w' := ⟨resolve, [e], trace, by simpa using holds⟩

theorem emit (w : World) {e : Event} (holds : P e) : Emits P w (w.emit e) := .event e holds rfl rfl

/-- Between worlds with the same trace and paths. -/
theorem congr {v v' : World} (emits : Emits P v v') (resolve : v.files.resolve = w.files.resolve)
    (trace : v.trace = w.trace) (resolve' : w'.files.resolve = v'.files.resolve)
    (trace' : w'.trace = v'.trace) : Emits P w w' := by
  obtain ⟨more, grown, all⟩ := emits.trace
  exact ⟨resolve'.trans (emits.resolve.trans resolve), more, by rw [trace', grown, trace], all⟩

theorem subset (emits : Emits P w w') {e : Event} (member : e ∈ w.trace) : e ∈ w'.trace := by
  obtain ⟨more, grown, -⟩ := emits.trace
  rw [grown]
  exact List.mem_append_left _ member

end Emits

namespace World

variable (w : World)

@[simp] theorem updateState_prefs (s : ServiceState) : (w.updateState s).prefs = w.prefs := rfl
@[simp] theorem updateState_files (s : ServiceState) : (w.updateState s).files = w.files := rfl
@[simp] theorem updateState_trace (s : ServiceState) : (w.updateState s).trace = w.trace := rfl
@[simp] theorem updateState_state (s : ServiceState) : (w.updateState s).state = s := rfl
@[simp] theorem emit_prefs (e : Event) : (w.emit e).prefs = w.prefs := rfl
@[simp] theorem emit_files (e : Event) : (w.emit e).files = w.files := rfl
@[simp] theorem emit_state (e : Event) : (w.emit e).state = w.state := rfl
@[simp] theorem emit_trace (e : Event) : (w.emit e).trace = w.trace ++ [e] := rfl
@[simp] theorem lookAtNetwork_prefs : w.lookAtNetwork.prefs = w.prefs := rfl
@[simp] theorem lookAtStop_prefs : w.lookAtStop.prefs = w.prefs := rfl
@[simp] theorem lookAtSpace_prefs : w.lookAtSpace.prefs = w.prefs := rfl
@[simp] theorem lookAtSpace_files : w.lookAtSpace.files = w.files := rfl
@[simp] theorem lookAtSpace_state : w.lookAtSpace.state = w.state := rfl
@[simp] theorem setPrefs_prefs (p : Prefs) : (w.setPrefs p).prefs = p := rfl
@[simp] theorem setPrefs_files (p : Prefs) : (w.setPrefs p).files = w.files := rfl
@[simp] theorem setPrefs_state (p : Prefs) : (w.setPrefs p).state = w.state := rfl
@[simp] theorem setPrefs_trace (p : Prefs) : (w.setPrefs p).trace = w.trace := rfl
@[simp] theorem setReady_files (f : String) : (w.setReady f).files = w.files := rfl
@[simp] theorem setReady_state (f : String) : (w.setReady f).state = w.state := rfl
@[simp] theorem setReady_ready (f : String) : (w.setReady f).prefs.readyFilename = some f := rfl
@[simp] theorem setReady_trace (f : String) :
    (w.setReady f).trace = w.trace ++ [.ready f (w.files.read f)] := rfl

@[simp] theorem digesting_prefs (c : Bool) (s : ServiceState) : (w.digesting c s).prefs = w.prefs := by
  cases c <;> rfl

@[simp] theorem digesting_files (c : Bool) (s : ServiceState) : (w.digesting c s).files = w.files := by
  cases c <;> rfl

@[simp] theorem digesting_trace (c : Bool) (s : ServiceState) : (w.digesting c s).trace = w.trace := by
  cases c <;> rfl

end World

variable {E : Env} {C : Conditions}

/-- The events of the work of a run: everything but ready files. -/
def Event.isWork : Event → Prop
  | .ready .. => False
  | _ => True

def Event.isTransfer : Event → Prop
  | .transfer .. => True
  | _ => False

/-- What the `finally` block tells the user. -/
def Event.isNotice : Event → Prop
  | .notification => True
  | .errorNotification => True
  | _ => False

theorem Event.isWork_of_notice {e : Event} (notice : e.isNotice) : e.isWork := by
  cases e <;> trivial

theorem Event.isWork_of_transfer {e : Event} (transfer : e.isTransfer) : e.isWork := by
  cases e <;> trivial

/-! ## Downloads -/

theorem receiveFile_prefs (r : HttpResponse) (path md5 : String) (w : World) :
    (receiveFile E C r path md5 w).2.prefs = w.prefs := by
  rw [receiveFile]
  split <;> rfl

theorem receiveFile_state (r : HttpResponse) (path md5 : String) (w : World) :
    (receiveFile E C r path md5 w).2.state = w.state := by
  rw [receiveFile]
  split <;> rfl

theorem receiveFile_emits {P : Event → Prop} (r : HttpResponse) (path md5 : String) (w : World) :
    Emits P w (receiveFile E C r path md5 w).2 := by
  rw [receiveFile]
  split <;> exact .of_eq rfl rfl

/-- What goes through has the wanted MD5. -/
theorem receiveFile_ok {r : HttpResponse} {path md5 : String} {w : World}
    (ok : (receiveFile E C r path md5 w).1 = true) :
    ∃ bytes, (receiveFile E C r path md5 w).2.files.read path = some bytes ∧ E.md5 bytes = md5 := by
  rw [receiveFile] at ok ⊢
  split at ok
  · rw [if_pos ‹_›]
    simp only [Bool.and_eq_true, beq_iff_eq] at ok
    exact ⟨_, FileStore.read_write .., ok.2⟩
  · cases ok

theorem downloadUrlFile_prefs (url path md5 : String) (w : World) :
    (downloadUrlFile E C url path md5 w).2.prefs = w.prefs := by
  rw [downloadUrlFile]
  split
  · rfl
  · split
    · rfl
    · exact receiveFile_prefs ..

theorem downloadUrlFile_emits {P : Event → Prop} (url path md5 : String) (w : World) :
    Emits P w (downloadUrlFile E C url path md5 w).2 := by
  have deleted : Emits P w { w with files := w.files.delete path } := .of_eq rfl rfl
  rw [downloadUrlFile]
  split
  · exact deleted
  · split
    · exact deleted
    · exact deleted.trans (receiveFile_emits ..)

/-- What the `finally` of a download of unknown size wraps. -/
theorem downloadUrlFileUnknownSize_cases (url path md5 : String) (w : World) :
    (downloadUrlFileUnknownSize E C url path md5 w).1 = false ∧
        (downloadUrlFileUnknownSize E C url path md5 w).2.prefs = w.prefs ∧
        (∀ P, Emits P w (downloadUrlFileUnknownSize E C url path md5 w).2) ∨
      ∃ r w', w'.prefs = w.prefs ∧ (∀ P, Emits P w w') ∧ downloadUrlFileUnknownSize E C url path md5 w =
        ((receiveFile E C r path md5 w').1, (receiveFile E C r path md5 w').2.updateState .downloading) := by
  rw [downloadUrlFileUnknownSize]
  split
  · exact .inl ⟨rfl, rfl, fun P => .of_eq rfl rfl⟩
  · rename_i r _
    split
    · exact .inl ⟨rfl, rfl, fun P => .of_eq rfl rfl⟩
    · simp only
      split
      · exact .inl ⟨rfl, rfl, fun P => .of_eq rfl rfl⟩
      · split
        · exact .inl ⟨rfl, rfl, fun P => .of_eq rfl rfl⟩
        · refine .inr ⟨r, _, ?_, ?_, rfl⟩
          · rfl
          · exact fun P => .of_eq rfl rfl

theorem downloadUrlFileUnknownSize_prefs (url path md5 : String) (w : World) :
    (downloadUrlFileUnknownSize E C url path md5 w).2.prefs = w.prefs := by
  rcases downloadUrlFileUnknownSize_cases url path md5 w with ⟨-, prefs, -⟩ | ⟨r, w', prefs, -, run⟩
  · exact prefs
  · rw [run, World.updateState_prefs, receiveFile_prefs, prefs]

theorem downloadUrlFileUnknownSize_emits {P : Event → Prop} (url path md5 : String) (w : World) :
    Emits P w (downloadUrlFileUnknownSize E C url path md5 w).2 := by
  rcases downloadUrlFileUnknownSize_cases url path md5 w with ⟨-, -, emits⟩ | ⟨r, w', -, emits, run⟩
  · exact emits P
  · rw [run]
    exact (emits P).trans ((receiveFile_emits ..).trans (.of_eq rfl rfl))

theorem downloadUrlFileUnknownSize_ok {url path md5 : String} {w : World}
    (ok : (downloadUrlFileUnknownSize E C url path md5 w).1 = true) :
    ∃ bytes, (downloadUrlFileUnknownSize E C url path md5 w).2.files.read path = some bytes ∧
      E.md5 bytes = md5 := by
  rcases downloadUrlFileUnknownSize_cases url path md5 w with ⟨refused, -⟩ | ⟨r, w', -, -, run⟩
  · rw [refused] at ok
    cases ok
  · rw [run] at ok ⊢
    exact receiveFile_ok ok

@[simp] theorem World.lookUnless_prefs (force : Bool) (w : World) : (w.lookUnless force).prefs = w.prefs := by
  cases force <;> rfl

@[simp] theorem World.lookUnless_files (force : Bool) (w : World) : (w.lookUnless force).files = w.files := by
  cases force <;> rfl

theorem World.lookUnless_emits {P : Event → Prop} (force : Bool) (w : World) : Emits P w (w.lookUnless force) := by
  cases force with
  | false => exact .of_eq rfl rfl
  | true => exact .refl w

theorem downloadDeltaFile_prefs (urlBase name : String) (tag : Option String) (md5 : String) (force : Bool)
    (w : World) : (downloadDeltaFile E C urlBase name tag md5 force w).2.prefs = w.prefs := by
  cases tag with
  | some fn => rfl
  | none =>
    have looked := w.lookUnless_prefs force
    simp only [downloadDeltaFile]
    split
    · split
      · exact (downloadUrlFile_prefs ..).trans looked
      · split <;> exact (downloadUrlFile_prefs ..).trans looked
    · exact looked

theorem downloadDeltaFile_emits (urlBase name : String) (tag : Option String) (md5 : String) (force : Bool)
    (w : World) : Emits Event.isTransfer w (downloadDeltaFile E C urlBase name tag md5 force w).2 := by
  cases tag with
  | some fn => exact .refl w
  | none =>
    have looked : Emits Event.isTransfer w (w.lookUnless force) := w.lookUnless_emits force
    have fetched : Emits Event.isTransfer w (downloadUrlFile E C (urlBase ++ name) (E.config.getPathBase ++ name) md5
        ((w.lookUnless force).emit (.transfer (urlBase ++ name) (E.config.getPathBase ++ name)))).2 :=
      looked.trans ((Emits.emit _ trivial).trans (downloadUrlFile_emits ..))
    simp only [downloadDeltaFile]
    split
    · split
      · exact fetched
      · split
        · exact fetched.trans (.of_eq rfl rfl)
        · exact fetched.trans (.of_eq rfl rfl)
    · exact looked

theorem downloadUpdates_prefs (force : Bool) (ds : List DeltaInfo) (w : World) :
    (downloadUpdates E C force ds w).2.prefs = w.prefs := by
  induction ds generalizing w with
  | nil => rfl
  | cons d ds ih =>
    simp only [downloadUpdates]
    split
    · rw [ih, downloadDeltaFile_prefs]
    · exact downloadDeltaFile_prefs ..

theorem downloadUpdates_emits (force : Bool) (ds : List DeltaInfo) (w : World) :
    Emits Event.isTransfer w (downloadUpdates E C force ds w).2 := by
  induction ds generalizing w with
  | nil => exact .refl w
  | cons d ds ih =>
    simp only [downloadUpdates]
    split
    · exact (downloadDeltaFile_emits ..).trans (ih _)
    · exact downloadDeltaFile_emits ..

/-- What `downloadFiles` does before its result is known. -/
theorem downloadFiles_cases (ds : List DeltaInfo) (last : DeltaInfo) (force : Bool) (w : World) :
    ∃ w', w'.prefs = w.prefs ∧ Emits Event.isWork (w.emit .downloadFiles) w' ∧
      ((downloadFiles E C ds last force w).1 = false ∧ (downloadFiles E C ds last force w).2 = w' ∨
        downloadFiles E C ds last force w = (true, w'.updateState .downloading)) := by
  have begun : Emits Event.isWork (w.emit .downloadFiles) ((w.emit .downloadFiles).updateState .downloading) :=
    .of_eq rfl rfl
  have updates := begun.trans ((downloadUpdates_emits (E := E) (C := C) force ds _).weaken
    fun e => Event.isWork_of_transfer)
  have prefs := downloadUpdates_prefs (E := E) (C := C) force ds ((w.emit .downloadFiles).updateState .downloading)
  simp only [downloadFiles]
  generalize downloadUpdates E C force ds ((w.emit .downloadFiles).updateState .downloading) = fetched
    at updates prefs ⊢
  by_cases ok : fetched.1 = true
  · rw [if_pos ok]
    by_cases signed : E.config.applySignature = true
    · rw [if_pos signed]
      have prefs' := (downloadDeltaFile_prefs (E := E) (C := C) E.config.urlBaseUpdate last.signature.name
        last.signature.tag last.signature.update.md5 force fetched.2).trans prefs
      have signature := updates.trans ((downloadDeltaFile_emits (E := E) (C := C) E.config.urlBaseUpdate
        last.signature.name last.signature.tag last.signature.update.md5 force fetched.2).weaken
          fun e => Event.isWork_of_transfer)
      refine ⟨_, prefs', signature, ?_⟩
      split
      · exact .inr rfl
      · exact .inl ⟨rfl, rfl⟩
    · rw [if_neg signed]
      exact ⟨fetched.2, prefs, updates, .inr rfl⟩
  · rw [if_neg ok]
    exact ⟨fetched.2, prefs, updates, .inl ⟨rfl, rfl⟩⟩

theorem downloadFiles_prefs (ds : List DeltaInfo) (last : DeltaInfo) (force : Bool) (w : World) :
    (downloadFiles E C ds last force w).2.prefs = w.prefs := by
  obtain ⟨w', prefs, -, ⟨-, run⟩ | run⟩ := downloadFiles_cases (E := E) (C := C) ds last force w
  · rw [run, prefs]
  · rw [run, World.updateState_prefs, prefs]

theorem downloadFiles_emits (ds : List DeltaInfo) (last : DeltaInfo) (force : Bool) (w : World) :
    Emits Event.isWork (w.emit .downloadFiles) (downloadFiles E C ds last force w).2 := by
  obtain ⟨w', -, emits, ⟨-, run⟩ | run⟩ := downloadFiles_cases (E := E) (C := C) ds last force w
  · rw [run]
    exact emits
  · rw [run]
    exact emits.trans (.of_eq rfl rfl)

theorem downloadFiles_state {ds : List DeltaInfo} {last : DeltaInfo} {force : Bool} {w : World}
    (ok : (downloadFiles E C ds last force w).1 = true) :
    (downloadFiles E C ds last force w).2.state = .downloading := by
  obtain ⟨w', -, -, ⟨refused, -⟩ | run⟩ := downloadFiles_cases (E := E) (C := C) ds last force w
  · rw [refused] at ok
    cases ok
  · rw [run, World.updateState_state]

/-! ## Native steps -/

/-- A native step only writes files and reports itself. -/
structure NativeStep (w w' : World) : Prop where
  prefs : w'.prefs = w.prefs
  resolve : w'.files.resolve = w.files.resolve
  trace : w'.trace = w.trace
  state : w'.state = w.state ∨ w'.state = .applyingPatch

namespace NativeStep

variable {w w' w'' : World}

theorem refl (w : World) : NativeStep w w := ⟨rfl, rfl, rfl, .inl rfl⟩

theorem trans (first : NativeStep w w') (second : NativeStep w' w'') : NativeStep w w'' := by
  refine ⟨second.prefs.trans first.prefs, second.resolve.trans first.resolve, second.trace.trans first.trace, ?_⟩
  rcases second.state with state | state
  · rw [state]
    exact first.state
  · exact .inr state

end NativeStep

theorem zipadjust_native (file out : String) (w : World) : NativeStep w (zipadjust E file out w).2 := by
  simp only [zipadjust]
  split
  · exact ⟨rfl, rfl, rfl, .inr rfl⟩
  · split <;> exact ⟨rfl, rfl, rfl, .inr rfl⟩

theorem dedelta_native (source : Option String) (delta out : String) (w : World) :
    NativeStep w (dedelta E source delta out w).2 := by
  simp only [dedelta]
  split
  · exact ⟨rfl, rfl, rfl, .inr rfl⟩
  · split
    · split <;> exact ⟨rfl, rfl, rfl, .inr rfl⟩
    · exact ⟨rfl, rfl, rfl, .inr rfl⟩

theorem applyUpdates_native (last : DeltaInfo) (ds : List DeltaInfo) (source : Option (Option String))
    (tempFile : Nat) (w : World) : NativeStep w (applyUpdates E last source ds tempFile w).2.2 := by
  induction ds generalizing source tempFile w with
  | nil => exact .refl w
  | cons d ds ih =>
    simp only [applyUpdates]
    split
    · exact (dedelta_native ..).trans (ih ..)
    · exact dedelta_native ..

theorem applySteps_native (ds : List DeltaInfo) (last : DeltaInfo) (initialFile : Option String)
    (needsProcessing : Bool) (w : World) :
    NativeStep w (applySteps E ds last initialFile needsProcessing w).2 := by
  have updated : ∀ (source : Option (Option String)) (k : Nat) (w' : World), NativeStep w w' →
      NativeStep w (applyUpdates E last source ds k w').2.2 := by
    intro source k w' before
    exact before.trans (applyUpdates_native ..)
  have adjusted : ∀ file, NativeStep w (zipadjust E file (tempFiles E 0) w).2 := fun file => zipadjust_native ..
  unfold applySteps
  cases needsProcessing with
  | true =>
    cases initialFile with
    | some file =>
      simp only
      split
      · split
        · split
          · exact (updated _ _ _ (adjusted file)).trans (dedelta_native ..)
          · exact updated _ _ _ (adjusted file)
        · exact updated _ _ _ (adjusted file)
      · exact adjusted file
    | none =>
      simp only
      split
      · split
        · exact (updated _ _ _ (.refl w)).trans (dedelta_native ..)
        · exact updated _ _ _ (.refl w)
      · exact updated _ _ _ (.refl w)
  | false =>
    simp only
    split
    · split
      · exact (updated _ _ _ (.refl w)).trans (dedelta_native ..)
      · exact updated _ _ _ (.refl w)
    · exact updated _ _ _ (.refl w)

theorem applyPatches_prefs (ds : List DeltaInfo) (last : DeltaInfo) (initialFile : Option String)
    (needsProcessing : Bool) (w : World) :
    (applyPatches E ds last initialFile needsProcessing w).2.prefs = w.prefs := by
  have steps := (applySteps_native (E := E) ds last initialFile needsProcessing (w.emit .applyPatches)).prefs
  simp only [applyPatches]
  split
  · exact steps
  · simp only
    split <;> exact steps

theorem applyPatches_trace (ds : List DeltaInfo) (last : DeltaInfo) (initialFile : Option String)
    (needsProcessing : Bool) (w : World) :
    (applyPatches E ds last initialFile needsProcessing w).2.trace = w.trace ++ [.applyPatches] := by
  have steps := (applySteps_native (E := E) ds last initialFile needsProcessing (w.emit .applyPatches)).trace
  simp only [applyPatches]
  split
  · exact steps
  · simp only
    split <;> exact steps

theorem applyPatches_emits (ds : List DeltaInfo) (last : DeltaInfo) (initialFile : Option String)
    (needsProcessing : Bool) (w : World) :
    Emits Event.isWork w (applyPatches E ds last initialFile needsProcessing w).2 := by
  have steps := (applySteps_native (E := E) ds last initialFile needsProcessing (w.emit .applyPatches)).resolve
  refine .event .applyPatches trivial ?_ (applyPatches_trace ..)
  simp only [applyPatches]
  split
  · exact steps
  · simp only [FileStore.resolve_delete]
    split <;> exact steps

theorem applyPatches_traced (ds : List DeltaInfo) (last : DeltaInfo) (initialFile : Option String)
    (needsProcessing : Bool) (w : World) :
    Event.applyPatches ∈ (applyPatches E ds last initialFile needsProcessing w).2.trace := by
  rw [applyPatches_trace]
  exact List.mem_append_right _ (List.mem_singleton_self _)

/-- How patches end is how their steps end, and the state says so. -/
theorem applyPatches_state (ds : List DeltaInfo) (last : DeltaInfo) (initialFile : Option String)
    (needsProcessing : Bool) (w : World) :
    ((applyPatches E ds last initialFile needsProcessing w).1 = .failed ∧
        (applyPatches E ds last initialFile needsProcessing w).2.state = .errorUnknown) ∨
      (applyPatches E ds last initialFile needsProcessing w).1 ≠ .failed ∧
        ((applyPatches E ds last initialFile needsProcessing w).2.state = w.state ∨
          (applyPatches E ds last initialFile needsProcessing w).2.state = .applyingPatch) := by
  have native := (applySteps_native (E := E) ds last initialFile needsProcessing (w.emit .applyPatches)).state
  unfold applyPatches
  generalize applySteps E ds last initialFile needsProcessing (w.emit .applyPatches) = result at native ⊢
  obtain ⟨ended, w'⟩ := result
  cases ended with
  | done => exact .inr ⟨nofun, native⟩
  | failed => exact .inl ⟨rfl, rfl⟩
  | crashed => exact .inr ⟨nofun, native⟩

end OpenDelta.Service
