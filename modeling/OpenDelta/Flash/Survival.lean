import OpenDelta.Data.Runs
import OpenDelta.Flash.FlashUpdate
import OpenDelta.Service.Operations

/-!
# The initial file and the ready file

A device that checks for updates, flashes and changes its storage. The initial
file is found by its content, the files a build writes and deletes are named by
the server: as long as these do not meet, the initial file stays, and
`flashUpdate` deletes another file than the one it installs.
-/

namespace OpenDelta.Flash
open Service JavaString

variable {E : Env} {C : Conditions} {args : Args} {fuel : Nat} {latest : String}

/-! ## What a run notes down -/

theorem searched_initialFile (ds : List DeltaInfo) (w : World) :
    (searched E latest ds w).prefs.initialFile = none := by
  simp only [searched, searchPastWork]
  split
  · show (World.digesting _ _ _).prefs.initialFile = none
    rw [World.digesting_prefs]
    rfl
  · rw [World.digesting_prefs]
    rfl

/-- The result of a chain is noted down with its initial file, if that lies in
the path base. -/
theorem PlannedChain.initialFile {plan : Plan} {w : World} (chain : PlannedChain E C args latest plan w)
    (fresh : w.prefs.initialFile = none) {i : String}
    (noted : (complete E C args latest (deltaBranch E C args latest plan w)).world.prefs.initialFile = some i) :
    plan.initialFile = some i := by
  have planned : (planWorld E latest plan w).prefs.initialFile = none :=
    (congrArg Prod.snd (planDelta_marks E latest plan w)).trans fresh
  have build := buildDelta_exit E C args plan (planWorld E latest plan w)
  rw [chain.toStartsChain.deltaBranch_eq, build.complete_world] at noted
  generalize buildDelta E C args plan (planWorld E latest plan w) = exit at build noted
  cases build with
  | stopped _ broken => exact absurd broken chain.built.not_broken
  | crashed _ broken => exact absurd broken chain.built.not_broken
  | failed _ unbuilt => exact absurd chain.built unbuilt
  | stored w' _ prefs =>
    simp only [Exit.world, storeResult, prefs, planned] at noted
    split at noted
    · rename_i file isInitial
      split at noted
      · rw [isInitial]
        exact noted
      · cases noted
    · cases noted

/-- An initial file is noted down with the result of a chain only. -/
theorem branch_initialFile {ds : List DeltaInfo} {w : World} {i r : String}
    (unready : w.prefs.readyFilename = none) (fresh : w.prefs.initialFile = none)
    (offered : (complete E C args latest (branch E C args latest ds w)).offered = some r)
    (noted : (complete E C args latest (branch E C args latest ds w)).world.prefs.initialFile = some i) :
    ∃ first rest, keptDeltas E w.files latest ds = first :: rest ∧
      PlannedChain E C args latest (makePlan E w.files first rest) w ∧
      (makePlan E w.files first rest).initialFile = some i ∧ r = (makePlan E w.files first rest).flashFilename := by
  unfold branch at offered noted
  cases kept : keptDeltas E w.files latest ds with
  | nil =>
    simp only [kept] at noted
    cases reuse : findReusable E w.files latest ds with
    | none =>
      rw [reuse, Option.map_none] at noted
      exact nomatch ((congrArg Prod.snd (fullBranch_marks w)).trans fresh).symm.trans noted
    | some found =>
      rw [reuse] at noted
      exact nomatch fresh.symm.trans noted
  | cons first rest =>
    simp only [kept] at offered noted
    by_cases chain : PlannedChain E C args latest (makePlan E w.files first rest) w
    · refine ⟨first, rest, rfl, chain, PlannedChain.initialFile chain fresh noted, ?_⟩
      have result := (deltaBranch_offered unready _).mpr (.inr ⟨chain, rfl⟩)
      exact Option.some.inj (offered.symm.trans result)
    · exact nomatch ((congrArg Prod.snd (deltaBranch_marks offered chain)).trans fresh).symm.trans noted

/-! ## Patches -/

/-- A run comes to its patches, with a plan and in a world. -/
inductive Patches (E : Env) (C : Conditions) (args : Args) (fuel : Nat) (w : World) : Plan → World → Prop
  | intro (latest : String) (ds : List DeltaInfo) (first : DeltaInfo) (rest : List DeltaInfo)
      (newest : getNewestFullBuild E = .ok latest) (chain : fetched E fuel = some ds)
      (kept : keptDeltas E w.files latest ds = first :: rest)
      (starts : StartsChain E C args latest (makePlan E w.files first rest) (searched E latest ds w))
      (downloaded : ((makePlan E w.files first rest).download E C args
        (planWorld E latest (makePlan E w.files first rest) (searched E latest ds w))).1 = true) :
      Patches E C args fuel w (makePlan E w.files first rest) ((makePlan E w.files first rest).download E C args
        (planWorld E latest (makePlan E w.files first rest) (searched E latest ds w))).2

theorem Patches.nonempty {w w₁ : World} {plan : Plan} (patches : Patches E C args fuel w plan w₁) :
    plan.deltas ≠ [] := by
  obtain ⟨latest, ds, first, rest, -, -, -, -, -⟩ := patches
  exact makePlan_nonempty E w.files first rest

/-- The initial file of a run has the same bytes after every file operation of
the build. -/
def InitialSurvives (E : Env) (C : Conditions) (args : Args) (fuel : Nat) (w : World) : Prop :=
  ∀ plan w₁ i bytes, Patches E C args fuel w plan w₁ → plan.initialFile = some i →
    w₁.files.read i = some bytes → w₁.files.Keeps i bytes (buildOps E plan w₁)

/-- No file operation of the build is on a path to the initial file. -/
def InitialApart (E : Env) (C : Conditions) (args : Args) (fuel : Nat) (w : World) : Prop :=
  ∀ plan w₁ i bytes, Patches E C args fuel w plan w₁ → plan.initialFile = some i →
    w₁.files.read i = some bytes → ∀ o ∈ buildOps E plan w₁, w₁.files.resolve i ≠ w₁.files.resolve o.path

theorem initialSurvives_iff {w : World} : InitialSurvives E C args fuel w ↔ InitialApart E C args fuel w := by
  constructor
  · intro survives plan w₁ i bytes patches isInitial read
    exact ((buildOps_replaces plan w₁).keeps_iff read).mp (survives plan w₁ i bytes patches isInitial read)
  · intro apart plan w₁ i bytes patches isInitial read
    exact ((buildOps_replaces plan w₁).keeps_iff read).mpr (apart plan w₁ i bytes patches isInitial read)

/-! ## Runs of a device -/

/-- What a device does: a check with its surroundings, a `flashUpdate`, and any
change of its storage. -/
inductive DeviceAction where
  | check (E : Env) (C : Conditions) (args : Args) (fuel : Nat)
  | flash (F : Surroundings) (cache : CacheRecovery)
  | store (content : String → Option Bytes)

/-- A step of a device; a check whose fetch loop has not ended is none. -/
def deviceStep (c : Config) (w : World) : DeviceAction → Option World
  | .check E C args fuel => (checkForUpdatesAsync { E with config := c } C args fuel w).map Ending.world
  | .flash F cache => some (flashUpdate F c w cache).world
  | .store content => some { w with files := { w.files with content } }

/-- The initial file and the ready file are different files. -/
def FilesDiffer (w : World) : Prop :=
  ∀ i r, w.prefs.initialFile = some i → w.prefs.readyFilename = some r → w.files.resolve i ≠ w.files.resolve r

/-- What an action must not do: touch the initial file of its build, or delete
the ready file it flashes. -/
def Survives (c : Config) (w : World) : DeviceAction → Prop
  | .check E C args fuel => InitialSurvives { E with config := c } C args fuel w
  | .flash F cache => ∀ r, w.prefs.readyFilename = some r →
    (flashUpdate F c w cache).world.files.read r = w.files.read r
  | .store _ => True

/-- A check whose build stays apart from its initial file. -/
def Apart (c : Config) (w : World) : DeviceAction → Prop
  | .check E C args fuel => InitialApart { E with config := c } C args fuel w
  | _ => True

/-- A check that stays apart leaves different files. -/
theorem check_filesDiffer {w : World} {ending : Ending}
    (run : checkForUpdatesAsync E C args fuel w = some ending) (apart : InitialApart E C args fuel w) :
    FilesDiffer ending.world := by
  intro i r noted ready
  rcases checkForUpdatesAsync_cases run with ⟨state, failed, rfl⟩ | ⟨latest, ds, newest, chain, rfl⟩
  · rw [settle_ready, Exit.offered, World.offered_of_error] at ready
    · cases ready
    · exact getNewestFullBuild_error failed
  · rw [settle_ready] at ready
    have noted' := (congrArg Prod.snd (settle_marks ready)).symm.trans noted
    obtain ⟨first, rest, kept, planned, isInitial, rfl⟩ := branch_initialFile (searchPastWork_ready ..)
      (searched_initialFile ds w) ready noted'
    have files : (complete E C args latest (branch E C args latest ds (searched E latest ds w))).world.files =
        builtFiles E C args (makePlan E (searched E latest ds w).files first rest)
          (planWorld E latest (makePlan E (searched E latest ds w).files first rest) (searched E latest ds w)) := by
      simp only [branch, kept]
      have build := buildDelta_exit E C args
        (makePlan E (searched E latest ds w).files first rest)
        (planWorld E latest (makePlan E (searched E latest ds w).files first rest) (searched E latest ds w))
      rw [planned.toStartsChain.deltaBranch_eq, build.complete_world, planned.built.files]
    rw [settle_files, files, builtFiles, cleanup_files, FileStore.resolve_performAll, Plan.patch, applyPatches_files,
      FileStore.resolve_performAll]
    rw [searched_files] at kept planned isInitial ⊢
    have patches := Patches.intro latest ds first rest newest chain kept planned.toStartsChain planned.built.downloaded
    obtain ⟨⟨bytes, written⟩, source⟩ := buildOps_result patches.nonempty planned.built.applied
    obtain ⟨initial, read⟩ := Option.isSome_iff_exists.mp (source i isInitial)
    exact apart _ _ i initial patches isInitial read _ written

theorem flashUpdate_filesDiffer (F : Surroundings) (c : Config) (cache : CacheRecovery) {w : World}
    (differ : FilesDiffer w) : FilesDiffer (flashUpdate F c w cache).world := by
  have cleared : ∀ files, FilesDiffer { w.setPrefs w.prefs.clearState with files } := nofun
  unfold flashUpdate
  split
  · simp only
    split
    · exact cleared _
    · split
      · simp only [deleteInitialFile]
        split
        · split
          · exact cleared _
          · exact cleared _
        · exact cleared _
      · exact cleared _
  · exact differ

/-- `flashUpdate` spares a ready file that is not the initial file. -/
theorem flashUpdate_spares (F : Surroundings) (c : Config) (cache : CacheRecovery) {w : World}
    (differ : FilesDiffer w) {r : String} (ready : w.prefs.readyFilename = some r) :
    (flashUpdate F c w cache).world.files.read r = w.files.read r := by
  simp only [flashUpdate, ready]
  split
  · split
    · simp only [deleteInitialFile]
      split
      · rename_i i noted
        split
        · exact FileStore.read_delete_of_ne (s := w.files) (differ i r noted ready).symm
        · rfl
      · rfl
    · rfl
  · rfl

/-- **Initial file and ready file survive**, in a run of a device on which nothing
is ready at first, exactly when every build stays apart from its initial file. -/
theorem survives_iff (c : Config) (w : World) (actions : List DeviceAction) :
    ((∀ w', Visits (deviceStep c) (w.setPrefs w.prefs.clearState) actions w' → FilesDiffer w') ∧
      ∀ w' action, Takes (deviceStep c) (w.setPrefs w.prefs.clearState) actions w' action → Survives c w' action) ↔
    ∀ w' action, Takes (deviceStep c) (w.setPrefs w.prefs.clearState) actions w' action → Apart c w' action := by
  constructor
  · intro survive w' action takes
    have survives := survive.2 w' action takes
    cases action with
    | check E C args fuel => exact initialSurvives_iff.mp survives
    | flash => trivial
    | store => trivial
  · intro apart
    have differ : ∀ w', Visits (deviceStep c) (w.setPrefs w.prefs.clearState) actions w' → FilesDiffer w' := by
      intro w' visits
      refine visits.invariant FilesDiffer ?_ nofun apart
      intro w action w' differ apart taken
      cases action with
      | check E C args fuel =>
        obtain ⟨ending, run, rfl⟩ := Option.map_eq_some_iff.mp taken
        exact check_filesDiffer run apart
      | flash F cache =>
        cases taken
        exact flashUpdate_filesDiffer F c cache differ
      | store content =>
        cases taken
        exact differ
    refine ⟨differ, fun w' action takes => ?_⟩
    cases action with
    | check E C args fuel => exact initialSurvives_iff.mpr (apart w' _ takes)
    | flash F cache => exact fun r ready => flashUpdate_spares F c cache (differ w' takes.visits) ready
    | store => trivial

/-! ## A ZIP under another name -/

/-- The ZIP of `omni-a`, stored as `omni-b.zip`, and found there, where signatures
are applied. -/
def renamedEnv : Env :=
  { (signedServer "omni-b.zip").env with
    externalStorage := .directory "/sd/OpenDelta" (.file "/sd/OpenDelta/omni-b.zip" .empty) .empty }

def renamedWorld : World := .idle [("/sd/OpenDelta/omni-b.zip", [1])]

/-- Permissions are given, and every write goes through. -/
def granted : Surroundings where
  accessCacheFilesystem := true
  reboot := true
  listFiles := none
  succeeds _ := true

/-- The fetch loop does not look at the storage. -/
theorem fetchDeltas_storage (E : Env) (storage : Directory) (fuel : Nat) (fetch : String) :
    fetchDeltas { E with externalStorage := storage } fuel fetch = fetchDeltas E fuel fetch := by
  induction fuel generalizing fetch with
  | zero => rfl
  | succ fuel ih =>
    have turn : fetchDelta { E with externalStorage := storage } fetch = fetchDelta E fetch := rfl
    simp only [fetchDeltas, turn]
    cases fetchDelta E fetch with
    | none => rfl
    | some d => exact congrArg (Option.map (d :: ·)) (ih _)

/-- The update goes to `temp1`, the signature in place of the ZIP that the build
started from, and `flashUpdate` deletes the result. -/
theorem survives_renamed : ∃ w', Visits (deviceStep securedConfig) (renamedWorld.setPrefs renamedWorld.prefs.clearState)
      [.check renamedEnv .calm ⟨true, autoDownloadFull⟩ 2, .flash granted ⟨none, none, none⟩] w' ∧
    ¬ FilesDiffer w' ∧ w'.files.read "/sd/OpenDelta/omni-b.zip" = some [7] ∧
    (flashUpdate granted securedConfig w' ⟨none, none, none⟩).world.files.read "/sd/OpenDelta/omni-b.zip" = none := by
  have newest : getNewestFullBuild renamedEnv = .ok "omni-b.zip" := signedServer_newest
  have chain : fetched renamedEnv 2 = some [signedDelta "omni-b.zip"] :=
    (fetchDeltas_storage (signedServer "omni-b.zip").env _ 2 _).trans signedServer_fetched
  have run := checkForUpdatesAsync_eq .calm ⟨true, autoDownloadFull⟩ newest chain
    (renamedWorld.setPrefs renamedWorld.prefs.clearState)
  generalize ended : settle _ _ _ _ = ending at run
  have same : { renamedEnv with config := securedConfig } = renamedEnv := rfl
  have step : deviceStep securedConfig (renamedWorld.setPrefs renamedWorld.prefs.clearState)
      (.check renamedEnv .calm ⟨true, autoDownloadFull⟩ 2) = some ending.world := by
    rw [deviceStep, same, run, Option.map_some]
  refine ⟨_, .later step (.here _ _), fun differ => ?_, ?_, ?_⟩
  · refine differ "/sd/OpenDelta/omni-b.zip" "/sd/OpenDelta/omni-b.zip" ?_ ?_ rfl
    · rw [← ended]
      decide
    · rw [← ended]
      decide
  · rw [← ended]
    decide
  · rw [← ended]
    decide

end OpenDelta.Flash
