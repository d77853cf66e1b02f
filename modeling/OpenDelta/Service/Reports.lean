import OpenDelta.Service.Steps

/-!
# What a run reports

The states a run can report: its progress, and the four errors of the `try`
block. Apart from a full ZIP that does not fit, an error is the last report.
-/

namespace OpenDelta.Service

variable {E : Env} {C : Conditions} {args : Args} {latest : String}

/-! ## Reports -/

def RunStep.report? : RunStep → Option ServiceState
  | report state => some state
  | store _ => none

/-- The states reported, in order. -/
def reports (steps : List RunStep) : List ServiceState := steps.filterMap RunStep.report?

@[simp] theorem reports_nil : reports [] = [] := rfl
@[simp] theorem reports_report (s : ServiceState) (steps : List RunStep) :
    reports (.report s :: steps) = s :: reports steps := rfl
@[simp] theorem reports_store (e : Edit) (steps : List RunStep) : reports (.store e :: steps) = reports steps := rfl
@[simp] theorem reports_append (steps steps' : List RunStep) :
    reports (steps ++ steps') = reports steps ++ reports steps' := List.filterMap_append

@[simp] theorem reports_map (states : List ServiceState) : reports (states.map .report) = states := by
  induction states with
  | nil => rfl
  | cons s states ih => rw [List.map_cons, reports_report, ih]

/-- The last report is what is seen. -/
theorem foldl_state (steps : List RunStep) (d : Display) :
    (steps.foldl RunStep.perform d).state = (reports steps).getLast?.getD d.state := by
  induction steps generalizing d with
  | nil => rfl
  | cons step steps ih =>
    rw [List.foldl_cons, ih]
    cases step with
    | report s =>
      rw [reports_report, List.getLast?_cons]
      rfl
    | store e => rfl

/-- The progress that the `try` block reports, at one place or another. -/
def progressStates : List ServiceState :=
  [.checking, .checkingMd5, .searching, .searchingMd5, .downloading, .applyingPatch, .applyingMd5]

/-- The errors it reports. -/
def errorStates : List ServiceState := [.errorDownload, .errorUnofficial, .errorDiskSpace, .errorUnknown]

/-- All states it reports. -/
def runStates : List ServiceState := progressStates ++ errorStates

theorem runStates_busy : ∀ s ∈ runStates, (s.isProgressState || s.isErrorState) = true := by decide

theorem progressStates_sound : ∀ s ∈ progressStates, s.isErrorState = false := by decide

/-! ## Steps without an error -/

theorem digestStates_progress (computes : Bool) {s : ServiceState} (progress : s ∈ progressStates) :
    digestStates computes s ⊆ progressStates := by
  cases computes with
  | false => exact List.nil_subset _
  | true => exact List.cons_subset.mpr ⟨progress, List.nil_subset _⟩

theorem digestSteps_progress (computes : Bool) {s : ServiceState} (progress : s ∈ progressStates) :
    reports (digestSteps computes s) ⊆ progressStates := by
  rw [digestSteps, reports_map]
  exact digestStates_progress computes progress

theorem searchSteps_progress (files : FileStore) (ds : List DeltaInfo) :
    reports (searchSteps E files latest ds) ⊆ progressStates := by
  rw [searchSteps, reports_append]
  refine List.append_subset.mpr ⟨digestSteps_progress _ (by decide), ?_⟩
  split <;> exact List.nil_subset _

theorem takeSteps_progress (wants : Bool) (files : FileStore) :
    reports (takeSteps E latest wants files) ⊆ progressStates := by
  rw [takeSteps]
  split
  · rw [reports_append]
    refine List.append_subset.mpr ⟨digestSteps_progress _ (by decide), ?_⟩
    split <;> exact List.nil_subset _
  · exact List.nil_subset _

theorem planFullSteps_progress (w : World) : reports (planFullSteps E latest w) ⊆ progressStates := by
  rw [planFullSteps, reports_append, reports_append]
  refine List.append_subset.mpr ⟨List.append_subset.mpr ⟨?_, takeSteps_progress ..⟩, ?_⟩
  · split <;> exact List.nil_subset _
  · split <;> exact List.nil_subset _

theorem sizeStates_progress (files : FileStore) (ds : List DeltaInfo) (last : DeltaInfo) :
    sizeStates E files ds last ⊆ progressStates := by
  refine List.append_subset.mpr ⟨List.cons_subset.mpr ⟨by decide, ?_⟩, by decide⟩
  intro s member
  obtain ⟨f, -, listened⟩ := List.mem_flatMap.mp member
  exact digestStates_progress _ (by decide) listened

theorem scanStates_progress (files : FileStore) (zip : FileFull) (fs : List String) :
    scanStates E files zip fs ⊆ progressStates := by
  induction fs with
  | nil => exact List.nil_subset _
  | cons f fs ih =>
    rw [scanStates]
    split
    · refine List.append_subset.mpr ⟨digestStates_progress _ (by decide), List.cons_subset.mpr ⟨by decide, ?_⟩⟩
      split
      · exact List.nil_subset _
      · exact ih
    · exact ih

theorem initialStates_progress (files : FileStore) (first : DeltaInfo) (possibleMatch : String) :
    initialStates E files first possibleMatch ⊆ progressStates := by
  have scanned : ∀ (expected : Bool) (fs : List String),
      (if expected then [] else scanStates E files first.input fs) ⊆ progressStates := by
    intro expected fs
    cases expected with
    | true => exact List.nil_subset _
    | false => exact scanStates_progress ..
  refine List.append_subset.mpr ⟨List.cons_subset.mpr ⟨by decide, ?_⟩, List.cons_subset.mpr ⟨by decide, scanned _ _⟩⟩
  exact digestStates_progress _ (by decide)

theorem planDeltaSteps_progress (first : DeltaInfo) (rest : List DeltaInfo) (w : World) :
    reports (planDeltaSteps E latest first rest w) ⊆ progressStates := by
  simp only [planDeltaSteps, reports_append, reports_map]
  refine List.append_subset.mpr ⟨List.append_subset.mpr ⟨List.append_subset.mpr ⟨List.append_subset.mpr
    ⟨sizeStates_progress .., initialStates_progress ..⟩, ?_⟩, takeSteps_progress ..⟩, ?_⟩
  · rw [Plan.nameSteps]
    split <;> exact List.nil_subset _
  · split
    · split
      · exact List.nil_subset _
      · split <;> exact List.nil_subset _
    · exact List.nil_subset _

theorem storeSteps_reports (plan : Plan) : reports (storeSteps E plan) = [] := by
  unfold storeSteps
  split
  · split <;> rfl
  · rfl

/-! ## Steps that end in an error -/

theorem deltaSteps_cases (name : String) (tag : Option String) (md5 : String) (force : Bool) (w : World) :
    deltaSteps E C name tag md5 force w = [] ∨ deltaSteps E C name tag md5 force w = [.report .errorDownload] ∧
      (downloadDeltaFile E C E.config.urlBaseUpdate name tag md5 force w).1 = false := by
  cases tag with
  | some fn => exact .inl rfl
  | none =>
    simp only [deltaSteps, downloadDeltaFile, Option.isNone_none, Bool.true_and]
    split
    · split
      · exact .inl rfl
      · next failed =>
        rw [Bool.or_eq_true, not_or] at failed
        refine .inr ⟨rfl, ?_⟩
        rw [if_neg failed.1]
        split <;> rfl
    · exact .inl rfl

theorem updateSteps_cases (force : Bool) (ds : List DeltaInfo) (w : World) :
    updateSteps E C force ds w = [] ∨
      updateSteps E C force ds w = [.report .errorDownload] ∧ (downloadUpdates E C force ds w).1 = false := by
  induction ds generalizing w with
  | nil => exact .inl rfl
  | cons d ds ih =>
    simp only [updateSteps, downloadUpdates]
    rcases deltaSteps_cases (E := E) (C := C) d.update.name d.update.tag d.update.update.md5 force w with
      none | ⟨error, failed⟩
    · rw [none]
      split
      · exact ih _
      · exact .inl rfl
    · rw [error, failed]
      exact .inr ⟨rfl, rfl⟩

/-- `downloadFiles` reports an error with its last step, where it fails. -/
theorem chainSteps_cases (ds : List DeltaInfo) (last : DeltaInfo) (force : Bool) (w : World) :
    reports (chainSteps E C ds last force w) ⊆ progressStates ∨
      reports (chainSteps E C ds last force w) = [.downloading, .errorDownload] ∧
        (downloadFiles E C ds last force w).1 = false := by
  have started : [ServiceState.downloading] ⊆ progressStates := by decide
  have ended : [ServiceState.downloading, .downloading] ⊆ progressStates := by decide
  simp only [chainSteps, downloadFiles]
  rcases updateSteps_cases (E := E) (C := C) force ds ((w.emit .downloadFiles).updateState .downloading) with
    none | ⟨error, failed⟩
  · rw [none]
    cases (downloadUpdates E C force ds ((w.emit .downloadFiles).updateState .downloading)).1 with
    | false => exact .inl started
    | true =>
      simp only [Bool.true_and, if_true]
      cases E.config.applySignature with
      | false => exact .inl ended
      | true =>
        simp only [if_true]
        rcases deltaSteps_cases (E := E) (C := C) last.signature.name last.signature.tag last.signature.update.md5 force
          (downloadUpdates E C force ds ((w.emit .downloadFiles).updateState .downloading)).2 with
          none | ⟨error, failed⟩
        · rw [none]
          split
          · exact .inl ended
          · exact .inl started
        · rw [error, failed]
          exact .inr ⟨rfl, rfl⟩
  · rw [error, failed]
    exact .inr ⟨rfl, rfl⟩

/-! ## All reports of a run -/

theorem progressStates_subset : progressStates ⊆ runStates := List.subset_append_left _ _

theorem buildSteps_reports (plan : Plan) (w : World) : reports (buildSteps E C args plan w) ⊆ runStates := by
  simp only [buildSteps, reports_append]
  refine List.append_subset.mpr ⟨?_, ?_⟩
  · rcases chainSteps_cases (E := E) (C := C) plan.deltas plan.last args.userInitiated w with progress | ⟨error, -⟩
    · exact List.Subset.trans progress progressStates_subset
    · rw [error]
      decide
  · split
    · rw [reports_report]
      refine List.cons_subset.mpr ⟨by decide, ?_⟩
      split
      · exact List.nil_subset _
      · decide
      · rw [reports_append]
        refine List.append_subset.mpr ⟨List.Subset.trans (digestSteps_progress _ (by decide)) progressStates_subset, ?_⟩
        split
        · rw [storeSteps_reports]
          exact List.nil_subset _
        · decide
    · exact List.nil_subset _

theorem fullBuildSteps_reports (url md5 name : String) (w : World) :
    reports (fullBuildSteps E C url md5 name w) ⊆ runStates := by
  simp only [fullBuildSteps, reports_report, reports_append]
  refine List.cons_subset.mpr ⟨by decide, List.append_subset.mpr ⟨?_, List.cons_subset.mpr ⟨by decide, ?_⟩⟩⟩
  · split
    · decide
    · exact List.nil_subset _
  · split
    · exact List.nil_subset _
    · split
      · exact List.nil_subset _
      · decide

theorem finishSteps_reports (full : Bool) (w : World) :
    reports (finishSteps E C args latest full w) ⊆ runStates := by
  unfold finishSteps
  split
  · split
    · cases getLatestFullMd5Sum E (latestFullFetch E latest) with
      | none => exact List.nil_subset _
      | some md5 => exact fullBuildSteps_reports ..
    · exact List.nil_subset _
  · exact List.nil_subset _

theorem branchSteps_reports (ds : List DeltaInfo) (w : World) :
    reports (branchSteps E C args latest ds w) ⊆ runStates := by
  unfold branchSteps
  cases keptDeltas E w.files latest ds with
  | nil =>
    simp only
    cases (findReusable E w.files latest ds).map fun found => E.config.getPathBase ++ found.1.out.name with
    | some f => exact List.nil_subset _
    | none =>
      simp only [fullBranchSteps, reports_append]
      refine List.append_subset.mpr ⟨List.Subset.trans (planFullSteps_progress w) progressStates_subset, ?_⟩
      split
      · exact List.nil_subset _
      · exact finishSteps_reports ..
  | cons first rest =>
    simp only [deltaBranchSteps, reports_append]
    refine List.append_subset.mpr ⟨List.Subset.trans (planDeltaSteps_progress first rest w) progressStates_subset, ?_⟩
    split
    · exact List.nil_subset _
    · split
      · exact List.nil_subset _
      · split
        · decide
        · split
          · exact buildSteps_reports ..
          · exact finishSteps_reports ..

theorem getNewestFullBuild_reports {state : ServiceState} (failed : getNewestFullBuild E = .error state) :
    state ∈ runStates := by
  unfold getNewestFullBuild at failed
  split at failed
  · cases failed
    decide
  · split at failed
    · cases failed
      decide
    · split at failed
      · cases failed
        decide
      · cases failed

/-- A run reports these states, and no others. -/
theorem runSteps_reports (fuel : Nat) (w : World) : reports (runSteps E C args fuel w) ⊆ runStates := by
  rw [runSteps, reports_append]
  refine List.append_subset.mpr ⟨List.nil_subset _, ?_⟩
  cases newest : getNewestFullBuild E with
  | error state => exact List.cons_subset.mpr ⟨getNewestFullBuild_reports newest, List.nil_subset _⟩
  | ok latest =>
    simp only [reports_store]
    cases fetched E fuel with
    | none => exact List.nil_subset _
    | some ds =>
      rw [reports_append]
      exact List.append_subset.mpr
        ⟨List.Subset.trans (searchSteps_progress _ ds) progressStates_subset, branchSteps_reports ..⟩

variable (C args) in
/-- `autoState` shows a result. -/
theorem autoState_state (w : World) : (autoState C args w).2.state = .none ∨ (autoState C args w).2.state = .build ∨
    (autoState C args w).2.state = .ready := by
  have notified : ∀ w : World, (notifyUser C args w).2.state = w.state := by
    intro w
    have cases : (notifyUser C args w).2 = w ∨ (notifyUser C args w).2 = w.emit .notification := notifyUser_cases w
    rcases cases with eq | eq
    · rw [eq]
    · rw [eq, World.emit_state]
  simp only [autoState]
  generalize (if C.stopDownload w.stopReads = true then autoDownloadCheck else args.checkOnly) = checkOnly
  split
  · split
    · exact .inr (.inl (notified _))
    · exact .inl rfl
  · split
    · exact .inl rfl
    · exact .inr (.inr (notified _))

end OpenDelta.Service
