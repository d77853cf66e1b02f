import OpenDelta.Service.Metered
import OpenDelta.Service.Reports

/-!
# The first error

A run shows the first error it reports, except where a full ZIP does not fit: the
`finally` block of that download reports progress over the error, and the caller
an error of its own.
-/

namespace OpenDelta.Service

variable {E : Env} {C : Conditions} {args : Args} {latest : String}

/-- The first error, if there is one. -/
def firstError? (states : List ServiceState) : Option ServiceState := states.find? (·.isErrorState)

theorem firstError?_error {states : List ServiceState} {e : ServiceState} (first : firstError? states = some e) :
    e.isErrorState = true := List.find?_some (p := ServiceState.isErrorState) first

/-- The first error is the last report. -/
def Unmasked (states : List ServiceState) : Prop := ∀ e, firstError? states = some e → states.getLast? = some e

variable {states states' : List ServiceState}

theorem firstError?_progress (progress : states ⊆ progressStates) : firstError? states = none :=
  List.find?_eq_none.mpr fun s member => by simp [progressStates_sound s (progress member)]

theorem unmasked_progress (progress : states ⊆ progressStates) : Unmasked states := by
  intro e first
  cases (firstError?_progress progress).symm.trans first

/-- What comes before the errors does not matter. -/
theorem unmasked_append (progress : states ⊆ progressStates) : Unmasked (states ++ states') ↔ Unmasked states' := by
  have same : firstError? (states ++ states') = firstError? states' := by
    rw [firstError?, List.find?_append]
    exact congrArg (Option.or · _) (firstError?_progress progress)
  have last : ∀ e, firstError? states' = some e →
      (states ++ states').getLast? = states'.getLast? := by
    intro e first
    have nonempty : states' ≠ [] := List.ne_nil_of_mem (List.mem_of_find?_eq_some first)
    rw [List.getLast?_append, List.getLast?_eq_some_getLast nonempty]
    rfl
  constructor
  · intro unmasked e first
    rw [← last e first]
    exact unmasked e (same.trans first)
  · intro unmasked e first
    rw [same] at first
    rw [last e first]
    exact unmasked e first

theorem unmasked_cons {s : ServiceState} (progress : s ∈ progressStates) :
    Unmasked (s :: states) ↔ Unmasked states :=
  unmasked_append (List.cons_subset.mpr ⟨progress, List.nil_subset _⟩)

theorem unmasked_nil : Unmasked [] := unmasked_progress (List.nil_subset _)

theorem unmasked_singleton (s : ServiceState) : Unmasked [s] := by
  intro e first
  exact congrArg some (List.mem_singleton.mp (List.mem_of_find?_eq_some first)).symm

/-! ## Builds -/

theorem buildSteps_unmasked (plan : Plan) (w : World) : Unmasked (reports (buildSteps E C args plan w)) := by
  simp only [buildSteps, reports_append]
  rcases chainSteps_cases (E := E) (C := C) plan.deltas plan.last args.userInitiated w with progress | ⟨error, failed⟩
  · rw [unmasked_append progress]
    split
    · rw [reports_report, unmasked_cons (by decide)]
      split
      · exact unmasked_nil
      · exact unmasked_singleton _
      · rw [reports_append, unmasked_append (digestSteps_progress _ (by decide))]
        split
        · rw [storeSteps_reports]
          exact unmasked_nil
        · exact unmasked_singleton _
    · exact unmasked_nil
  · have failed : (plan.download E C args w).1 = false := failed
    rw [error, failed]
    exact (unmasked_cons (by decide)).mpr (unmasked_singleton _)

/-! ## The full ZIP -/

/-- A full ZIP that is declared too large is what masks an error. -/
theorem fullBuildSteps_unmasked (url md5 name : String) (w : World) :
    Unmasked (reports (fullBuildSteps E C url md5 name w)) ↔ declaresTooMuch E C url w.spaceReads = false := by
  simp only [fullBuildSteps]
  generalize downloadUrlFileUnknownSize E C url (E.config.getPathBase ++ name) md5
    (w.emit (.transfer url (E.config.getPathBase ++ name))) = result
  rw [reports_report, reports_append, reports_report, unmasked_cons (by decide)]
  cases declaresTooMuch E C url w.spaceReads with
  | false =>
    refine iff_of_true ((unmasked_cons (by decide)).mpr ?_) rfl
    split
    · exact unmasked_nil
    · split
      · exact unmasked_nil
      · exact unmasked_singleton _
  | true =>
    refine iff_of_false (fun unmasked => ?_) (by decide)
    have last := unmasked .errorDiskSpace rfl
    cases received : result.1 with
    | true =>
      rw [received] at last
      cases last
    | false =>
      rw [received] at last
      cases stopped : C.stopDownload result.2.stopReads with
      | true =>
        rw [stopped] at last
        cases last
      | false =>
        rw [stopped] at last
        cases last

/-- The runnable ends with a download of the full ZIP, and this is too large. -/
structure Overflows (E : Env) (C : Conditions) (args : Args) (latest : String) (full : Bool) (w : World) : Prop where
  full : full = true
  mode : args.checkOnly = autoDownloadFull
  allowed : (args.userInitiated || C.networkState w.networkReads) = true
  published : (getLatestFullMd5Sum E (latestFullFetch E latest)).isSome = true
  tooMuch : declaresTooMuch E C (latestFullFetch E latest) w.spaceReads = true

theorem finishSteps_unmasked (full : Bool) (w : World) :
    Unmasked (reports (finishSteps E C args latest full w)) ↔ ¬ Overflows E C args latest full w := by
  have none : ∀ {P : Prop}, ¬ P → (Unmasked (reports []) ↔ ¬ P) := fun fails =>
    iff_of_true unmasked_nil fails
  unfold finishSteps
  by_cases wanted : full = true ∧ args.checkOnly = autoDownloadFull
  swap
  · rw [if_neg wanted]
    exact none fun all => wanted ⟨all.full, all.mode⟩
  rw [if_pos wanted]
  by_cases allowed : (args.userInitiated || C.networkState w.networkReads) = true
  swap
  · rw [if_neg allowed]
    exact none fun all => allowed all.allowed
  rw [if_pos allowed]
  cases published : getLatestFullMd5Sum E (latestFullFetch E latest) with
  | none =>
    refine none fun all => ?_
    have some := all.published
    rw [published] at some
    cases some
  | some md5 =>
    have reads : (w.lookUnless args.userInitiated).spaceReads = w.spaceReads := by
      cases args.userInitiated <;> rfl
    simp only
    rw [fullBuildSteps_unmasked, reads, ← Bool.not_eq_true]
    refine not_congr ⟨fun tooMuch => ⟨wanted.1, wanted.2, allowed, by rw [published]; rfl, tooMuch⟩, ?_⟩
    exact fun all => all.tooMuch

theorem fullBranchSteps_unmasked (reuse : Option String) (w : World) :
    Unmasked (reports (fullBranchSteps E C args latest reuse w)) ↔
      ¬ (reuse = none ∧ Overflows E C args latest (planFull E latest w).1 (planFull E latest w).2) := by
  cases reuse with
  | some f => exact iff_of_true unmasked_nil fun all => by cases all.1
  | none =>
    simp only [fullBranchSteps, reports_append]
    rw [unmasked_append (planFullSteps_progress w)]
    split
    · next check =>
      refine iff_of_true unmasked_nil fun all => ?_
      exact absurd (check.symm.trans all.2.mode) (by decide)
    · rw [finishSteps_unmasked]
      simp only [true_and]

theorem deltaBranchSteps_unmasked (first : DeltaInfo) (rest : List DeltaInfo) (w : World) :
    Unmasked (reports (deltaBranchSteps E C args latest first rest w)) ↔
      ¬ (EnoughSpace E C (makePlan E w.files first rest) true w ∧
        Overflows E C args latest (planDelta E latest (makePlan E w.files first rest) w).1
          (planDelta E latest (makePlan E w.files first rest) w).2.lookAtSpace) := by
  have planned := planDelta_planned (E := E) latest (makePlan E w.files first rest) w
  simp only [deltaBranchSteps, reports_append]
  rw [unmasked_append (planDeltaSteps_progress first rest w)]
  generalize makePlan E w.files first rest = plan at planned ⊢
  split
  · next check =>
    refine iff_of_true unmasked_nil fun all => ?_
    exact absurd (check.symm.trans all.2.mode) (by decide)
  · rw [planned.spaceReads]
    cases space : C.freeSpace w.spaceReads with
    | none =>
      refine iff_of_true unmasked_nil fun all => ?_
      obtain ⟨freeSpace, readable, -⟩ := all.1
      cases space.symm.trans readable
    | some freeSpace =>
      simp only
      by_cases short : freeSpace < getRequiredSpace E plan.deltas plan.last (planDelta E latest plan w).1
      · rw [if_pos short]
        refine iff_of_true (unmasked_singleton _) fun all => ?_
        obtain ⟨freeSpace', readable, enough⟩ := all.1
        cases space.symm.trans readable
        rw [all.2.full] at short
        exact enough short
      · rw [if_neg short]
        split
        · next builds =>
          refine iff_of_true (buildSteps_unmasked _ _) fun all => ?_
          rw [all.2.full] at builds
          cases builds.1
        · rw [finishSteps_unmasked]
          refine not_congr ⟨fun all => ⟨⟨freeSpace, space, ?_⟩, all⟩, fun all => all.2⟩
          rw [← all.full]
          exact short

/-! ## A run -/

/-- The looks at the free space before the full ZIP is requested. -/
def spaceLooks (kept : List DeltaInfo) : Nat := if kept.isEmpty then 0 else 1

/-- The run goes on to request the full ZIP, and the answer declares more bytes
than are free then. -/
structure Outgrown (E : Env) (C : Conditions) (args : Args) (fuel : Nat) (w : World) (latest : String)
    (ds : List DeltaInfo) : Prop where
  newest : getNewestFullBuild E = .ok latest
  chain : fetched E fuel = some ds
  mode : args.checkOnly = autoDownloadFull
  allowed : (args.userInitiated || C.networkState 0) = true
  published : (getLatestFullMd5Sum E (latestFullFetch E latest)).isSome = true
  goesOn : GoesOnFull E C latest ds (searched E latest ds w)
  tooMuch : declaresTooMuch E C (latestFullFetch E latest) (spaceLooks (keptDeltas E w.files latest ds)) = true

variable (E latest) in
theorem searched_spaceReads (ds : List DeltaInfo) (w : World) : (searched E latest ds w).spaceReads = 0 := by
  unfold searched searchPastWork
  simp only
  split <;> exact World.digesting_spaceReads ..

theorem branchSteps_unmasked {fuel : Nat} {w : World} {ds : List DeltaInfo} (newest : getNewestFullBuild E = .ok latest)
    (chain : fetched E fuel = some ds) :
    Unmasked (reports (branchSteps E C args latest ds (searched E latest ds w))) ↔
      ¬ Outgrown E C args fuel w latest ds := by
  have networkReads := searched_networkReads E latest ds w
  have spaceReads := searched_spaceReads E latest ds w
  have files := searched_files E latest ds w
  unfold branchSteps
  cases kept : keptDeltas E (searched E latest ds w).files latest ds with
  | nil =>
    have sound : (searched E latest ds w).state.isErrorState = false := searched_sound ds w
    have planned := planFull_planned E latest sound
    simp only
    rw [fullBranchSteps_unmasked]
    refine not_congr ⟨fun all => ?_, fun all => ?_⟩
    · obtain ⟨fresh, full, mode, allowed, published, tooMuch⟩ := all
      rw [planned.flag, Bool.and_eq_true, Bool.not_eq_true'] at full
      rw [planFull_networkReads, networkReads] at allowed
      rw [planned.spaceReads, spaceReads] at tooMuch
      refine ⟨newest, chain, mode, allowed, published, .single kept (Option.map_eq_none_iff.mp fresh) full.1 full.2, ?_⟩
      rw [← files, kept]
      exact tooMuch
    · have tooMuch := all.tooMuch
      rw [← files, kept] at tooMuch
      have goesOn := all.goesOn
      cases goesOn with
      | single _ fresh newer unverified =>
        refine ⟨by rw [fresh]; rfl, ?_, all.mode, ?_, all.published, ?_⟩
        · rw [planned.flag, newer, unverified]
          rfl
        · rw [planFull_networkReads, networkReads]
          exact all.allowed
        · rw [planned.spaceReads, spaceReads]
          exact tooMuch
      | planned first rest kept' => cases kept.symm.trans kept'
  | cons first rest =>
    have planned := planDelta_planned (E := E) latest (makePlan E (searched E latest ds w).files first rest)
      (searched E latest ds w)
    have looked : (World.lookAtSpace (planDelta E latest (makePlan E (searched E latest ds w).files first rest)
        (searched E latest ds w)).2).networkReads = 0 := (planDelta_networkReads ..).trans networkReads
    have looked' : (World.lookAtSpace (planDelta E latest (makePlan E (searched E latest ds w).files first rest)
        (searched E latest ds w)).2).spaceReads = 1 := congrArg (· + 1) (planned.spaceReads.trans spaceReads)
    simp only
    rw [deltaBranchSteps_unmasked]
    refine not_congr ⟨fun all => ?_, fun all => ?_⟩
    · obtain ⟨space, full, mode, allowed, published, tooMuch⟩ := all
      rw [planned.flag, Bool.and_eq_true, Bool.not_eq_true'] at full
      rw [looked] at allowed
      rw [looked'] at tooMuch
      refine ⟨newest, chain, mode, allowed, published, .planned first rest kept full.1 full.2 space, ?_⟩
      rw [← files, kept]
      exact tooMuch
    · have tooMuch := all.tooMuch
      rw [← files, kept] at tooMuch
      have goesOn := all.goesOn
      cases goesOn with
      | single kept' => cases kept.symm.trans kept'
      | planned first' rest' kept' wants unverified space =>
        cases kept.symm.trans kept'
        refine ⟨space, ?_, all.mode, ?_, all.published, ?_⟩
        · rw [planned.flag, wants, unverified]
          rfl
        · rw [looked]
          exact all.allowed
        · rw [looked']
          exact tooMuch

variable (E C args) in
/-- The `finally` block keeps an error, and makes none. -/
theorem runFinally_state (w : World) : (w.state.isErrorState = true ∧ (runFinally E C args w).2.state = w.state) ∨
    w.state.isErrorState = false ∧ (runFinally E C args w).2.state.isErrorState = false := by
  have shown : ∀ w : World, (autoState C args w).2.state.isErrorState = false := by
    intro w
    rcases autoState_state C args w with state | state | state
    · rw [state]
      rfl
    · rw [state]
      rfl
    · rw [state]
      rfl
  unfold runFinally
  cases error : w.state.isErrorState with
  | true =>
    refine .inl ⟨rfl, ?_⟩
    simp only [error, if_true, shouldShowErrorNotification]
    split
    · rfl
    · split <;> rfl
  | false =>
    refine .inr ⟨rfl, ?_⟩
    simp only [error, Bool.false_eq_true, if_false]
    split <;> exact shown _

/-- A run ends in an error exactly if its `try` block does. -/
theorem settle_error (exit : Exit) {e : ServiceState} (error : e.isErrorState = true) :
    (settle E C args exit).world.state = e ↔ exit.world.state = e := by
  have concluded : ∀ w : World, (runFinally E C args w).2.state = e ↔ w.state = e := by
    intro w
    rcases runFinally_state E C args w with ⟨-, same⟩ | ⟨before, behind⟩
    · rw [same]
    · refine iff_of_false (fun shown => ?_) fun shown => ?_
      · rw [shown, error] at behind
        cases behind
      · rw [shown, error] at before
        cases before
  cases exit with
  | returned w => rw [settle, conclude_world, concluded, Exit.world]
  | continued full w => rw [settle, conclude_world, concluded, Exit.world]
  | threw w => exact concluded w
  | aborted w => rfl

/-- **Errors are not masked**, in a run of the service, exactly when it does not
request a full ZIP that is declared larger than the space that is free. -/
theorem first_error_shown_iff {fuel : Nat} {w : World} {ending : Ending}
    (run : checkForUpdatesAsync E C args fuel w = some ending) :
    (∀ e, firstError? (reports (runSteps E C args fuel w)) = some e → ending.world.state = e) ↔
      ∀ latest ds, ¬ Outgrown E C args fuel w latest ds := by
  obtain ⟨exit, body, rfl⟩ := Option.map_eq_some_iff.mp run
  have leads := runSteps_leads body
  have last : ∀ e, firstError? (reports (runSteps E C args fuel w)) = some e →
      ((settle E C args exit).world.state = e ↔ (reports (runSteps E C args fuel w)).getLast? = some e) := by
    intro e first
    have member : e ∈ reports (runSteps E C args fuel w) := List.mem_of_find?_eq_some first
    have state : exit.world.state = _ := (congrArg Display.state leads).symm.trans (foldl_state ..)
    rw [settle_error exit (firstError?_error first), state,
      List.getLast?_eq_some_getLast (List.ne_nil_of_mem member), Option.getD_some, Option.some.injEq]
  have cleared : reports clearSteps ⊆ progressStates := List.nil_subset _
  have unmasked : (∀ e, firstError? (reports (runSteps E C args fuel w)) = some e →
      (settle E C args exit).world.state = e) ↔ Unmasked (reports (runSteps E C args fuel w)) :=
    forall_congr' fun e => imp_congr_right (last e)
  rw [unmasked, runSteps, reports_append, unmasked_append cleared]
  unfold runBody at body
  cases newest : getNewestFullBuild E with
  | error state =>
    refine iff_of_true (unmasked_singleton state) fun latest ds outgrown => ?_
    cases newest.symm.trans outgrown.newest
  | ok latest =>
    rw [newest] at body
    obtain ⟨ds, chain, -⟩ := Option.map_eq_some_iff.mp body
    simp only [chain, reports_store, reports_append]
    rw [unmasked_append (searchSteps_progress _ ds), branchSteps_unmasked newest chain]
    constructor
    · intro fits latest' ds' outgrown
      cases newest.symm.trans outgrown.newest
      cases chain.symm.trans outgrown.chain
      exact fits outgrown
    · exact fun fits => fits latest ds

/-! ### A full storage -/

/-- Nothing is free. -/
def Conditions.crowded : Conditions := { Conditions.calm with freeSpace := fun _ => some 0 }

/-- There is no space for the deltas, and the run says so. -/
theorem first_error_shown_crowded : ∃ ending,
    checkForUpdatesAsync currentServer.env .crowded ⟨true, autoDownloadFull⟩ 2 currentWorld = some ending ∧
      firstError? (reports (runSteps currentServer.env .crowded ⟨true, autoDownloadFull⟩ 2 currentWorld)) =
        some .errorDiskSpace ∧
      ending.world.state = .errorDiskSpace := by
  have run := checkForUpdatesAsync_eq .crowded ⟨true, autoDownloadFull⟩ currentServer_newest
    currentServer_fetched currentWorld
  have first : firstError? (reports (runSteps currentServer.env .crowded ⟨true, autoDownloadFull⟩ 2 currentWorld)) =
      some .errorDiskSpace := by
    rw [runSteps, currentServer_newest]
    simp only [currentServer_fetched]
    decide
  refine ⟨_, run, first, (first_error_shown_iff run).mpr ?_ _ first⟩
  intro latest ds outgrown
  cases currentServer_newest.symm.trans outgrown.newest
  cases currentServer_fetched.symm.trans outgrown.chain
  have goesOn := outgrown.goesOn
  have kept : keptDeltas currentServer.env (searched currentServer.env "omni-b.zip" [sampleDelta] currentWorld).files
      "omni-b.zip" [sampleDelta] = [sampleDelta] := by decide
  cases goesOn with
  | single empty => cases kept.symm.trans empty
  | planned first rest kept' wants =>
    cases kept.symm.trans kept'
    exact absurd wants (by decide)

/-- A server with a full ZIP and no deltas. -/
def zipServer : Published :=
  sampleServer [] ["omni-b.zip"]
    [("f/omni-b.zip.md5sum", ascii "ec7f7e7bb43742ce868145f71d37b53c  omni-b.zip".toList), ("f/omni-b.zip", [4])]

theorem zipServer_newest : getNewestFullBuild zipServer.env = .ok "omni-b.zip" :=
  Published.Lists.newest zipServer ["omni-b.zip"] ⟨rfl, rfl, by decide, by decide⟩ (by decide)

theorem zipServer_fetched : fetched zipServer.env 1 = some [] :=
  fetchDeltas_nil (Published.fetchDelta_none (by decide) (by decide))

/-- There is no space for the full ZIP, and the run says that the download failed. -/
theorem first_error_masked : ∃ ending,
    checkForUpdatesAsync zipServer.env .crowded ⟨true, autoDownloadFull⟩ 1 (.idle []) = some ending ∧
      firstError? (reports (runSteps zipServer.env .crowded ⟨true, autoDownloadFull⟩ 1 (.idle []))) =
        some .errorDiskSpace ∧
      ending.world.state = .errorDownload ∧
      ¬ ∀ e, firstError? (reports (runSteps zipServer.env .crowded ⟨true, autoDownloadFull⟩ 1 (.idle []))) = some e →
        ending.world.state = e := by
  have run := checkForUpdatesAsync_eq .crowded ⟨true, autoDownloadFull⟩ zipServer_newest zipServer_fetched (.idle [])
  generalize ended : settle _ _ _ _ = ending at run
  have first : firstError? (reports (runSteps zipServer.env .crowded ⟨true, autoDownloadFull⟩ 1 (.idle []))) =
      some .errorDiskSpace := by
    rw [runSteps, zipServer_newest]
    simp only [zipServer_fetched]
    decide
  have shown : ending.world.state = .errorDownload := by
    rw [← ended]
    decide
  refine ⟨ending, run, first, shown, fun unmasked => ?_⟩
  cases (unmasked _ first).symm.trans shown

end OpenDelta.Service
