import OpenDelta.Service.Outcome

/-!
# The routes to a ready file

What planning, the full download and a build from deltas each leave behind:
the ready file, and the event that stored it.
-/

namespace OpenDelta.Service

variable {E : Env} {C : Conditions} {args : Args} {latest : String}

/-! ## The full ZIP on the storage -/

/-- A verified full ZIP is there, with the MD5 of its `.md5sum`. -/
theorem fullVerified_read {files : FileStore} (verified : fullVerified E files latest = true) :
    ∃ bytes, files.read (latestFullPath E latest) = some bytes ∧
      getLatestFullMd5Sum E (latestFullFetch E latest) = some (E.md5 bytes) := by
  unfold fullVerified checkFullBuildMd5Sum at verified
  split at verified
  · rename_i md5Part bytes published read
    exact ⟨bytes, read, by rw [published, eq_of_beq verified]⟩
  · cases verified

/-- Planning on a world. Where the full ZIP is wanted and there already, it is
stored as ready; otherwise it stays wanted. -/
structure Planned (E : Env) (latest : String) (wants : Bool) (w : World) (r : Bool × World) : Prop where
  flag : r.1 = (wants && !fullVerified E w.files latest)
  files : r.2.files = w.files
  spaceReads : r.2.spaceReads = w.spaceReads
  sound : r.2.state.isErrorState = false
  ready : r.2.prefs.readyFilename =
    if wants && fullVerified E w.files latest then some (latestFullPath E latest) else w.prefs.readyFilename
  trace : r.2.trace = w.trace ++
    if wants && fullVerified E w.files latest then
      [.ready (latestFullPath E latest) (w.files.read (latestFullPath E latest))]
    else []

variable (E latest) in
theorem takeFullBuild_eq (wants : Bool) (w : World) :
    (wants && fullVerified E w.files latest) = true ∧
        takeFullBuild E latest wants w =
          (false, (w.digesting true .checkingMd5).setReady (latestFullPath E latest)) ∨
      (wants && fullVerified E w.files latest) = false ∧
        ∃ c, takeFullBuild E latest wants w = (wants, w.digesting c .checkingMd5) := by
  by_cases verified : fullVerified E w.files latest = true
  · obtain ⟨bytes, read, published⟩ := fullVerified_read verified
    cases wants with
    | false => exact .inr ⟨rfl, false, rfl⟩
    | true =>
      refine .inl ⟨by simpa using verified, ?_⟩
      simp [takeFullBuild, read, checkFullBuildDigests, published, verified]
  · rw [Bool.not_eq_true] at verified
    refine .inr ⟨by rw [verified, Bool.and_false], ?_⟩
    unfold takeFullBuild
    split
    · rename_i there
      rw [Bool.and_eq_true] at there
      refine ⟨checkFullBuildDigests E (latestFullFetch E latest), ?_⟩
      simp only [World.digesting_files, verified, Bool.false_eq_true, if_false, there.1]
    · exact ⟨false, rfl⟩

theorem World.digesting_sound {w : World} (sound : w.state.isErrorState = false) (c : Bool) :
    (w.digesting c .checkingMd5).state.isErrorState = false := by
  cases c with
  | false => exact sound
  | true => rfl

theorem World.digesting_spaceReads (w : World) (c : Bool) (s : ServiceState) :
    (w.digesting c s).spaceReads = w.spaceReads := by
  cases c <;> rfl

variable (E latest) in
theorem takeFullBuild_planned {w : World} (sound : w.state.isErrorState = false) (wants : Bool) :
    Planned E latest wants w (takeFullBuild E latest wants w) := by
  rcases takeFullBuild_eq E latest wants w with ⟨verified, eq⟩ | ⟨unverified, c, eq⟩
  · have both := verified
    rw [Bool.and_eq_true] at both
    rw [eq]
    exact {
      flag := by simp [both.1, both.2]
      files := by simp
      spaceReads := World.digesting_spaceReads ..
      sound := World.digesting_sound sound true
      ready := by simp [verified]
      trace := by simp [verified] }
  · rw [eq]
    exact {
      flag := by
        cases wants with
        | false => rfl
        | true => rw [Bool.true_and] at unverified; rw [unverified]; rfl
      files := by simp
      spaceReads := World.digesting_spaceReads ..
      sound := World.digesting_sound sound c
      ready := by simp [unverified]
      trace := by simp [unverified] }

variable (E latest) in
theorem takeFullBuild_names (wants : Bool) (w : World) :
    (takeFullBuild E latest wants w).2.prefs.latestFullName = w.prefs.latestFullName ∧
      (takeFullBuild E latest wants w).2.prefs.latestDeltaName = w.prefs.latestDeltaName := by
  rcases takeFullBuild_eq E latest wants w with ⟨-, eq⟩ | ⟨-, c, eq⟩
  · rw [eq]
    exact ⟨rfl, rfl⟩
  · rw [eq, World.digesting_prefs]
    exact ⟨rfl, rfl⟩

/-- Other preferences may change before planning. -/
theorem Planned.before {wants : Bool} {w : World} {p : Prefs} {r : Bool × World}
    (planned : Planned E latest wants (w.setPrefs p) r) (ready : p.readyFilename = w.prefs.readyFilename) :
    Planned E latest wants w r :=
  { planned with ready := by rw [planned.ready, World.setPrefs_files, World.setPrefs_prefs, ready] }

/-- The download size is noted down after planning. -/
theorem Planned.sized {wants : Bool} {w : World} {r : Bool × World} (planned : Planned E latest wants w r)
    (text : String) : Planned E latest wants w (r.1, r.2.setDownloadSize text) := { planned with }

variable (E latest) in
theorem planFull_planned {w : World} (sound : w.state.isErrorState = false) :
    Planned E latest (isNewer E latest) w (planFull E latest w) := by
  have named : (w.setPrefs (namesFull (isNewer E latest) w.prefs)).state.isErrorState = false := sound
  have taken := (takeFullBuild_planned E latest named (isNewer E latest)).before rfl
  unfold planFull
  simp only
  split
  · exact taken.sized _
  · exact taken

variable (latest) in
theorem planDelta_planned (plan : Plan) (w : World) :
    Planned E latest (plan.wantsFull E latest) w (planDelta E latest plan w) := by
  have searching : (((w.updateState .checking).updateState .searching).setPrefs
      (plan.names E latest w.prefs)).state.isErrorState = false := rfl
  have searched := (takeFullBuild_planned E latest searching (plan.wantsFull E latest)).before rfl
  have taken : Planned E latest (plan.wantsFull E latest) w _ := { searched with }
  unfold planDelta
  simp only
  split
  · split
    · exact taken.sized _
    · split
      · exact taken.sized _
      · exact taken
  · exact taken

/-! ## The full download -/

/-- The world in which the full ZIP is requested. -/
def requestFull (E : Env) (args : Args) (latest : String) (w : World) : World :=
  (w.lookUnless args.userInitiated).emit (.transfer (latestFullFetch E latest) (latestFullPath E latest))

/-- The bytes of the full ZIP arrive, and they have the published MD5. -/
def FullReceived (E : Env) (C : Conditions) (args : Args) (latest : String) (w : World) : Prop :=
  ∃ md5, getLatestFullMd5Sum E (latestFullFetch E latest) = some md5 ∧
    (downloadUrlFileUnknownSize E C (latestFullFetch E latest) (latestFullPath E latest) md5
      (requestFull E args latest w)).1 = true

/-- A wanted full ZIP is downloaded: the run may do so, and it arrives. -/
structure FullDownload (E : Env) (C : Conditions) (args : Args) (latest : String) (w : World) : Prop where
  mode : args.checkOnly = autoDownloadFull
  allowed : (args.userInitiated || C.networkState w.networkReads) = true
  received : FullReceived E C args latest w

theorem finishFull_false (w : World) : finishFull E C args latest false w = w := if_neg (by simp)

/-- The full download offers the full ZIP or nothing. -/
theorem finishFull_offered {w : World} (fresh : w.prefs.readyFilename = none) (f : String) :
    (finishFull E C args latest true w).offered = some f ↔
      FullDownload E C args latest w ∧ f = latestFullPath E latest := by
  have nothing : ∀ w' : World, w'.prefs.readyFilename = none → w'.offered ≠ some f := by
    intro w' none
    rw [World.offered, none, ite_self]
    exact (Option.some_ne_none f).symm
  have looked : (w.lookUnless args.userInitiated).prefs.readyFilename = none := by
    rw [World.lookUnless_prefs, fresh]
  simp only [finishFull, true_and]
  by_cases mode : args.checkOnly = autoDownloadFull
  case neg =>
    rw [if_neg mode]
    refine ⟨fun some => absurd some (nothing w fresh), ?_⟩
    rintro ⟨download, -⟩
    exact absurd download.mode mode
  rw [if_pos mode]
  by_cases allowed : (args.userInitiated || C.networkState w.networkReads) = true
  case neg =>
    rw [if_neg allowed]
    refine ⟨fun some => absurd some (nothing _ looked), ?_⟩
    rintro ⟨download, -⟩
    exact absurd download.allowed allowed
  rw [if_pos allowed]
  cases published : getLatestFullMd5Sum E (latestFullFetch E latest) with
  | none =>
    refine ⟨fun some => absurd some (nothing _ looked), ?_⟩
    rintro ⟨download, -⟩
    obtain ⟨md5, some, -⟩ := download.received
    rw [published] at some
    cases some
  | some md5 =>
    have prefs := downloadUrlFileUnknownSize_prefs (E := E) (C := C) (latestFullFetch E latest)
      (latestFullPath E latest) md5 (requestFull E args latest w)
    simp only [downloadFullBuild]
    by_cases ok : (downloadUrlFileUnknownSize E C (latestFullFetch E latest) (latestFullPath E latest) md5
        (requestFull E args latest w)).1 = true
    · refine ⟨fun some => ⟨⟨mode, allowed, md5, published, ok⟩, ?_⟩, ?_⟩
      · simp only [requestFull, latestFullPath] at ok some ⊢
        rw [if_pos ok, World.offered] at some
        split at some
        · cases some
        · exact (Option.some.inj some).symm
      · rintro ⟨-, rfl⟩
        simp only [requestFull, latestFullPath] at ok ⊢
        rw [if_pos ok, World.offered_of_sound]
        · rfl
        · rfl
    · refine ⟨fun some => absurd some ?_, ?_⟩
      · simp only [requestFull, latestFullPath] at ok prefs ⊢
        rw [if_neg ok]
        split
        · exact nothing _ (by rw [World.lookAtStop_prefs, prefs]; exact looked)
        · exact nothing _ (by rw [World.updateState_prefs, World.lookAtStop_prefs, prefs]; exact looked)
      · rintro ⟨download, -⟩
        obtain ⟨md5', some, ok'⟩ := download.received
        rw [published] at some
        cases some
        exact absurd ok' ok

/-- A full download that goes through shows in the trace. -/
theorem finishFull_traced {w : World} (download : FullDownload E C args latest w) :
    Event.transfer (latestFullFetch E latest) (latestFullPath E latest) ∈
      (finishFull E C args latest true w).trace := by
  obtain ⟨mode, allowed, md5, published, ok⟩ := download
  have emits : Emits Event.isTransfer (requestFull E args latest w) _ := downloadUrlFileUnknownSize_emits
    (E := E) (C := C) (latestFullFetch E latest) (latestFullPath E latest) md5 (requestFull E args latest w)
  have requested := emits.subset (List.mem_append_right _ (List.mem_singleton_self _) :
    Event.transfer (latestFullFetch E latest) (latestFullPath E latest) ∈ (requestFull E args latest w).trace)
  simp only [finishFull, true_and]
  rw [if_pos mode, if_pos allowed, published]
  simp only [downloadFullBuild]
  simp only [requestFull, latestFullPath] at ok requested ⊢
  rw [if_pos ok]
  exact List.mem_append_left _ requested

/-! ## A build from deltas -/

/-- A build goes through: downloads, patches, verification. -/
structure Built (E : Env) (C : Conditions) (args : Args) (plan : Plan) (w : World) : Prop where
  downloaded : (plan.download E C args w).1 = true
  applied : (plan.patch E (plan.download E C args w).2).1 = .done
  verified : plan.verify E (plan.patch E (plan.download E C args w).2).2.files = true

/-- A build breaks off and reports no error: a download is not allowed or
stopped, or the native code takes the process with it. -/
inductive BrokenOff (E : Env) (C : Conditions) (args : Args) (plan : Plan) (w : World) : Prop where
  | download (refused : (plan.download E C args w).1 = false)
      (silent : (plan.download E C args w).2.state.isErrorState = false)
  | patch (downloaded : (plan.download E C args w).1 = true)
      (crashed : (plan.patch E (plan.download E C args w).2).1 = .crashed)

theorem Built.not_broken {plan : Plan} {w : World} (built : Built E C args plan w) :
    ¬ BrokenOff E C args plan w := by
  intro broken
  cases broken with
  | download refused => exact Bool.noConfusion (refused.symm.trans built.downloaded)
  | patch _ crashed => exact Native.noConfusion (crashed.symm.trans built.applied)

/-- How a build can end. `w'` is the world before the result is stored. -/
inductive BuildExit (E : Env) (C : Conditions) (args : Args) (plan : Plan) (w : World) : Exit → Prop
  | stopped (w' : World) (broken : BrokenOff E C args plan w) (prefs : w'.prefs = w.prefs)
      (emits : Emits Event.isWork (w.emit .downloadFiles) w') (sound : w'.state.isErrorState = false) :
      BuildExit E C args plan w (.returned w')
  | crashed (w' : World) (broken : BrokenOff E C args plan w) (prefs : w'.prefs = w.prefs)
      (emits : Emits Event.isWork (w.emit .downloadFiles) w') : BuildExit E C args plan w (.aborted w')
  | failed (w' : World) (unbuilt : ¬ Built E C args plan w) (unbroken : ¬ BrokenOff E C args plan w)
      (emits : Emits Event.isWork (w.emit .downloadFiles) w') (error : w'.state.isErrorState = true) :
      BuildExit E C args plan w (.returned w')
  | stored (w' : World) (built : Built E C args plan w) (prefs : w'.prefs = w.prefs)
      (emits : Emits Event.isWork (w.emit .downloadFiles) w') (sound : w'.state.isErrorState = false)
      (patched : Event.applyPatches ∈ w'.trace) (verified : plan.verify E w'.files = true) :
      BuildExit E C args plan w (.continued false (storeResult E plan w'))

theorem World.digesting_applying_sound {w : World} (sound : w.state.isErrorState = false) (c : Bool) :
    (w.digesting c .applyingMd5).state.isErrorState = false := by
  cases c with
  | false => exact sound
  | true => rfl

variable (E C args) in
theorem buildDelta_exit (plan : Plan) (w : World) : BuildExit E C args plan w (buildDelta E C args plan w) := by
  have prefs : (plan.download E C args w).2.prefs = w.prefs := downloadFiles_prefs ..
  have emits : Emits Event.isWork (w.emit .downloadFiles) (plan.download E C args w).2 := downloadFiles_emits ..
  have prefs' : (plan.patch E (plan.download E C args w).2).2.prefs = w.prefs := (applyPatches_prefs ..).trans prefs
  have emits' : Emits Event.isWork (w.emit .downloadFiles) (plan.patch E (plan.download E C args w).2).2 :=
    emits.trans (applyPatches_emits ..)
  have state : (plan.patch E (plan.download E C args w).2).1 = .failed ∧
        (plan.patch E (plan.download E C args w).2).2.state = .errorUnknown ∨
      (plan.patch E (plan.download E C args w).2).1 ≠ .failed ∧
        ((plan.patch E (plan.download E C args w).2).2.state = (plan.download E C args w).2.state ∨
          (plan.patch E (plan.download E C args w).2).2.state = .applyingPatch) := applyPatches_state ..
  simp only [buildDelta]
  cases downloaded : (plan.download E C args w).1 with
  | false =>
    rw [if_neg Bool.false_ne_true]
    cases silent : (plan.download E C args w).2.state.isErrorState with
    | false => exact .stopped _ (.download downloaded silent) prefs emits silent
    | true =>
      refine .failed _ (fun built => ?_) (fun broken => ?_) emits silent
      · exact Bool.noConfusion (downloaded.symm.trans built.downloaded)
      · cases broken with
        | download _ silent' => exact Bool.noConfusion (silent.symm.trans silent')
        | patch went => exact Bool.noConfusion (downloaded.symm.trans went)
  | true =>
    rw [if_pos rfl]
    have loud : (plan.patch E (plan.download E C args w).2).1 ≠ .crashed → ¬ BrokenOff E C args plan w := by
      intro ended broken
      cases broken with
      | download refused => exact Bool.noConfusion (refused.symm.trans downloaded)
      | patch _ crashed => exact ended crashed
    cases applied : (plan.patch E (plan.download E C args w).2).1 with
    | crashed => exact .crashed _ (.patch downloaded applied) prefs' emits'
    | failed =>
      have error := state.resolve_right fun ⟨ended, _⟩ => ended applied
      refine .failed _ (fun built => ?_) (loud (by rw [applied]; exact nofun)) emits' (by rw [error.2]; rfl)
      exact Native.noConfusion (applied.symm.trans built.applied)
    | done =>
      simp only [World.digesting_files]
      split
      · rename_i verified
        refine .stored _ ⟨downloaded, applied, verified⟩ (by rw [World.digesting_prefs, prefs'])
          (emits'.trans (.of_eq (by rw [World.digesting_files]) (by rw [World.digesting_trace]))) ?_
            (by rw [World.digesting_trace]; exact applyPatches_traced ..) (by rw [World.digesting_files, verified])
        apply World.digesting_applying_sound
        have loading : (plan.download E C args w).2.state = .downloading := downloadFiles_state downloaded
        rcases state with ⟨failed, -⟩ | ⟨-, same | patching⟩
        · exact Native.noConfusion (applied.symm.trans failed)
        · rw [same, loading]
          rfl
        · rw [patching]
          rfl
      · rename_i unverified
        refine .failed _ (fun built => unverified built.verified) (loud (by rw [applied]; exact nofun))
          (emits'.trans (.of_eq ?_ ?_)) rfl
        · rw [World.updateState_files, World.digesting_files]
        · rw [World.updateState_trace, World.digesting_trace]

theorem storeResult_offered {plan : Plan} {w : World} (sound : w.state.isErrorState = false) :
    (storeResult E plan w).offered = some plan.flashFilename := by
  unfold storeResult
  rw [World.offered_of_sound]
  · exact World.setReady_ready ..
  · exact sound

/-- A build offers its result, or leaves what was offered before. -/
theorem BuildExit.complete_offered {plan : Plan} {w : World} {exit : Exit}
    (build : BuildExit E C args plan w exit) (f : String) :
    (complete E C args latest exit).offered = some f ↔
      Built E C args plan w ∧ f = plan.flashFilename ∨
        BrokenOff E C args plan w ∧ w.prefs.readyFilename = some f := by
  cases build with
  | stopped w' broken prefs _ sound =>
    simp only [complete, Exit.offered, World.offered_of_sound sound, prefs]
    exact ⟨fun some => .inr ⟨broken, some⟩,
      fun either => (either.resolve_left fun ⟨built, _⟩ => built.not_broken broken).2⟩
  | crashed w' broken prefs =>
    simp only [complete, Exit.offered, prefs]
    exact ⟨fun some => .inr ⟨broken, some⟩,
      fun either => (either.resolve_left fun ⟨built, _⟩ => built.not_broken broken).2⟩
  | failed w' unbuilt unbroken _ error =>
    simp only [complete, Exit.offered, World.offered_of_error error]
    exact ⟨nofun, fun either => either.elim (fun left => absurd left.1 unbuilt) fun right => absurd right.1 unbroken⟩
  | stored w' built _ _ sound =>
    simp only [complete, finishFull_false, Exit.offered, storeResult_offered sound, Option.some.injEq]
    exact ⟨fun same => .inl ⟨built, same.symm⟩,
      fun either => (either.resolve_right fun ⟨broken, _⟩ => built.not_broken broken).2.symm⟩

/-! ## The two branches -/

/-- There is as much free space as the plan requires. -/
def EnoughSpace (E : Env) (C : Conditions) (plan : Plan) (full : Bool) (w : World) : Prop :=
  ∃ freeSpace, C.freeSpace w.spaceReads = some freeSpace ∧
    ¬ freeSpace < getRequiredSpace E plan.deltas plan.last full

/-- The world in which the delta branch starts to act on its plan. -/
def planWorld (E : Env) (latest : String) (plan : Plan) (w : World) : World :=
  (planDelta E latest plan w).2.lookAtSpace

/-- Why a full ZIP that planning found stays on offer. -/
inductive KeepsFull (E : Env) (C : Conditions) (args : Args) (latest : String) (plan : Plan) (w : World) : Prop
  | checked (mode : args.checkOnly = autoDownloadCheck)
  | unreadable (space : C.freeSpace w.spaceReads = none)
  | idle (mode : args.checkOnly < autoDownloadCheck) (space : EnoughSpace E C plan false w)
  | broken (mode : autoDownloadCheck < args.checkOnly) (space : EnoughSpace E C plan false w)
      (broken : BrokenOff E C args plan (planWorld E latest plan w))

/-- The delta branch offers the full build. -/
inductive PlannedFull (E : Env) (C : Conditions) (args : Args) (latest : String) (plan : Plan) (w : World) : Prop
  | found (wants : plan.wantsFull E latest = true) (verified : fullVerified E w.files latest = true)
      (keeps : KeepsFull E C args latest plan w)
  | downloaded (wants : plan.wantsFull E latest = true) (unverified : fullVerified E w.files latest = false)
      (space : EnoughSpace E C plan true w) (download : FullDownload E C args latest (planWorld E latest plan w))

/-- The delta branch starts to download and apply its chain. -/
structure StartsChain (E : Env) (C : Conditions) (args : Args) (latest : String) (plan : Plan) (w : World) : Prop where
  mode : autoDownloadCheck < args.checkOnly
  unneeded : (plan.wantsFull E latest && !fullVerified E w.files latest) = false
  space : EnoughSpace E C plan false w

/-- The delta branch offers the result of its chain. -/
structure PlannedChain (E : Env) (C : Conditions) (args : Args) (latest : String) (plan : Plan) (w : World) : Prop
    extends StartsChain E C args latest plan w where
  built : Built E C args plan (planWorld E latest plan w)

/-- How the delta branch ends, from a world where nothing is ready. -/
inductive DeltaExit (E : Env) (C : Conditions) (args : Args) (latest : String) (plan : Plan) (w : World) : Exit → Prop
  | checked (mode : args.checkOnly = autoDownloadCheck) :
      DeltaExit E C args latest plan w (.returned (planDelta E latest plan w).2)
  | unreadable (mode : args.checkOnly ≠ autoDownloadCheck) (space : C.freeSpace w.spaceReads = none) :
      DeltaExit E C args latest plan w (.threw (planWorld E latest plan w))
  | crowded (mode : args.checkOnly ≠ autoDownloadCheck) (freeSpace : Int64)
      (space : C.freeSpace w.spaceReads = some freeSpace)
      (low : freeSpace < getRequiredSpace E plan.deltas plan.last (planDelta E latest plan w).1) :
      DeltaExit E C args latest plan w (.returned ((planWorld E latest plan w).updateState .errorDiskSpace))
  | idle (mode : args.checkOnly < autoDownloadCheck) (unneeded : (planDelta E latest plan w).1 = false)
      (space : EnoughSpace E C plan false w) : DeltaExit E C args latest plan w (.returned (planWorld E latest plan w))
  | built (mode : autoDownloadCheck < args.checkOnly) (unneeded : (planDelta E latest plan w).1 = false)
      (space : EnoughSpace E C plan false w) (exit : Exit)
      (build : BuildExit E C args plan (planWorld E latest plan w) exit) :
      DeltaExit E C args latest plan w (complete E C args latest exit)
  | full (mode : args.checkOnly ≠ autoDownloadCheck) (needed : (planDelta E latest plan w).1 = true)
      (space : EnoughSpace E C plan true w) :
      DeltaExit E C args latest plan w (.returned (finishFull E C args latest true (planWorld E latest plan w)))

variable (E C args latest) in
theorem deltaBranch_exit (plan : Plan) (w : World) :
    DeltaExit E C args latest plan w (complete E C args latest (deltaBranch E C args latest plan w)) := by
  have spaceReads := (planDelta_planned (E := E) latest plan w).spaceReads
  simp only [deltaBranch]
  by_cases mode : args.checkOnly = autoDownloadCheck
  · rw [if_pos mode]
    exact .checked mode
  rw [if_neg mode, spaceReads]
  cases space : C.freeSpace w.spaceReads with
  | none => exact .unreadable mode space
  | some freeSpace =>
    simp only
    by_cases low : freeSpace < getRequiredSpace E plan.deltas plan.last (planDelta E latest plan w).1
    · rw [if_pos low]
      exact .crowded mode freeSpace space low
    rw [if_neg low]
    cases flag : (planDelta E latest plan w).1 with
    | true =>
      rw [if_neg (by simp)]
      exact .full mode flag ⟨freeSpace, space, flag ▸ low⟩
    | false =>
      by_cases more : autoDownloadCheck < args.checkOnly
      · rw [if_pos ⟨rfl, more⟩]
        exact .built more flag ⟨freeSpace, space, flag ▸ low⟩ _ (buildDelta_exit ..)
      · rw [if_neg fun both => more both.2]
        simp only [complete, finishFull_false]
        exact .idle (by omega) flag ⟨freeSpace, space, flag ▸ low⟩

/-- **The offers of the delta branch**, from a world where nothing is ready. -/
theorem deltaBranch_offered {plan : Plan} {w : World} (fresh : w.prefs.readyFilename = none) (f : String) :
    (complete E C args latest (deltaBranch E C args latest plan w)).offered = some f ↔
      PlannedFull E C args latest plan w ∧ f = latestFullPath E latest ∨
        PlannedChain E C args latest plan w ∧ f = plan.flashFilename := by
  have planned := planDelta_planned (E := E) latest plan w
  generalize exited : complete E C args latest (deltaBranch E C args latest plan w) = exit
  have branch := exited ▸ deltaBranch_exit E C args latest plan w
  -- A full ZIP is ready after planning exactly if it was wanted and verified.
  have ready : (planDelta E latest plan w).2.prefs.readyFilename = some f ↔
      (plan.wantsFull E latest = true ∧ fullVerified E w.files latest = true) ∧ f = latestFullPath E latest := by
    rw [planned.ready, fresh, ← Bool.and_eq_true]
    split
    · rename_i found
      exact ⟨fun some => ⟨found, (Option.some.inj some).symm⟩, fun both => congrArg some both.2.symm⟩
    · rename_i found
      exact ⟨nofun, fun both => absurd both.1 found⟩
  have later : (planWorld E latest plan w).offered = (planDelta E latest plan w).2.prefs.readyFilename :=
    World.offered_of_sound planned.sound
  -- It is still wanted exactly if it was wanted and did not verify.
  have flag : (planDelta E latest plan w).1 = true ↔
      plan.wantsFull E latest = true ∧ fullVerified E w.files latest = false := by
    rw [planned.flag, Bool.and_eq_true, Bool.not_eq_true']
  cases branch with
  | checked mode =>
    rw [Exit.offered, World.offered_of_sound planned.sound, ready]
    refine ⟨fun ⟨⟨wants, verified⟩, eq⟩ => .inl ⟨.found wants verified (.checked mode), eq⟩, ?_⟩
    rintro (⟨full, eq⟩ | ⟨chain, -⟩)
    · cases full with
      | found wants verified => exact ⟨⟨wants, verified⟩, eq⟩
      | downloaded _ _ _ download => exact absurd (mode.symm.trans download.mode) (by decide)
    · exact absurd mode (by have := chain.mode; omega)
  | unreadable mode space =>
    rw [Exit.offered, later, ready]
    refine ⟨fun ⟨⟨wants, verified⟩, eq⟩ => .inl ⟨.found wants verified (.unreadable space), eq⟩, ?_⟩
    rintro (⟨full, eq⟩ | ⟨chain, -⟩)
    · cases full with
      | found wants verified => exact ⟨⟨wants, verified⟩, eq⟩
      | downloaded _ _ enough =>
        obtain ⟨freeSpace, some, -⟩ := enough
        exact nomatch space.symm.trans some
    · obtain ⟨freeSpace, some, -⟩ := chain.space
      exact nomatch space.symm.trans some
  | crowded mode freeSpace space low =>
    refine ⟨nofun, ?_⟩
    have full : ∀ b, EnoughSpace E C plan b w → (planDelta E latest plan w).1 ≠ b := by
      rintro b ⟨freeSpace', some, enough⟩ rfl
      cases space.symm.trans some
      exact enough low
    rintro (⟨offers, -⟩ | ⟨chain, -⟩)
    · cases offers with
      | found _ verified keeps =>
        have unneeded : (planDelta E latest plan w).1 = false := by rw [planned.flag, verified, Bool.not_true, Bool.and_false]
        cases keeps with
        | checked check => exact absurd check mode
        | unreadable none => exact nomatch space.symm.trans none
        | idle _ enough => exact absurd unneeded (full _ enough)
        | broken _ enough => exact absurd unneeded (full _ enough)
      | downloaded wants unverified enough => exact absurd (flag.mpr ⟨wants, unverified⟩) (full _ enough)
    · exact absurd (planned.flag.trans chain.unneeded) (full _ chain.space)
  | idle mode unneeded space =>
    rw [Exit.offered, later, ready]
    refine ⟨fun ⟨⟨wants, verified⟩, eq⟩ => .inl ⟨.found wants verified (.idle mode space), eq⟩, ?_⟩
    rintro (⟨offers, eq⟩ | ⟨chain, -⟩)
    · cases offers with
      | found wants verified => exact ⟨⟨wants, verified⟩, eq⟩
      | downloaded wants unverified =>
        rw [flag.mpr ⟨wants, unverified⟩] at unneeded
        cases unneeded
    · exact absurd chain.mode (by omega)
  | built mode unneeded space exit build =>
    rw [build.complete_offered, or_comm]
    refine or_congr ?_ ?_
    · refine ⟨fun ⟨broken, kept⟩ => ?_, fun ⟨offers, eq⟩ => ?_⟩
      · obtain ⟨⟨wants, verified⟩, eq⟩ := ready.mp kept
        exact ⟨.found wants verified (.broken mode space broken), eq⟩
      · cases offers with
        | found wants verified keeps =>
          refine ⟨?_, ready.mpr ⟨⟨wants, verified⟩, eq⟩⟩
          cases keeps with
          | checked check => exact absurd check (by omega)
          | unreadable none =>
            obtain ⟨freeSpace, some, -⟩ := space
            exact nomatch none.symm.trans some
          | idle low => exact absurd low (by omega)
          | broken _ _ broken => exact broken
        | downloaded wants unverified =>
          rw [flag.mpr ⟨wants, unverified⟩] at unneeded
          cases unneeded
    · refine and_congr_left fun _ => ⟨fun built => ⟨⟨mode, planned.flag.symm.trans unneeded, space⟩, built⟩, ?_⟩
      exact fun chain => chain.built
  | full mode needed space =>
    obtain ⟨wants, unverified⟩ := flag.mp needed
    have none : (planWorld E latest plan w).prefs.readyFilename = none := by
      refine Eq.trans (b := (planDelta E latest plan w).2.prefs.readyFilename) rfl ?_
      rw [planned.ready, unverified, Bool.and_false, if_neg Bool.false_ne_true, fresh]
    rw [Exit.offered, finishFull_offered none]
    constructor
    · exact fun ⟨download, eq⟩ => .inl ⟨.downloaded wants unverified space download, eq⟩
    · rintro (⟨offers, eq⟩ | ⟨chain, -⟩)
      · cases offers with
        | found _ verified => exact nomatch verified.symm.trans unverified
        | downloaded _ _ _ download => exact ⟨download, eq⟩
      · exact nomatch needed.symm.trans (planned.flag.trans chain.unneeded)

/-! ## Events -/

section Events

variable {P : Event → Prop}
  (transfer : P (.transfer (latestFullFetch E latest) (latestFullPath E latest)))
  (ready : ∀ bytes, getLatestFullMd5Sum E (latestFullFetch E latest) = some (E.md5 bytes) →
    P (.ready (latestFullPath E latest) (some bytes)))

include ready in
/-- Planning stores nothing as ready but a full ZIP that verifies. -/
theorem Planned.emits {wants : Bool} {w : World} {r : Bool × World} (planned : Planned E latest wants w r) :
    Emits P w r.2 := by
  refine ⟨by rw [planned.files], _, planned.trace, ?_⟩
  split
  · rename_i found
    rw [Bool.and_eq_true] at found
    obtain ⟨bytes, read, published⟩ := fullVerified_read found.2
    rw [read]
    intro e member
    cases List.mem_singleton.mp member
    exact ready bytes published
  · simp

include transfer ready in
/-- The full download requests the full ZIP, and stores it as ready only with the
published MD5. -/
theorem finishFull_emits (full : Bool) (w : World) : Emits P w (finishFull E C args latest full w) := by
  unfold finishFull
  split
  case isFalse => exact .refl w
  simp only
  split
  case isFalse => exact w.lookUnless_emits _
  split
  case h_2 => exact w.lookUnless_emits _
  rename_i md5 published
  have requested : Emits P w (downloadUrlFileUnknownSize E C (latestFullFetch E latest) (latestFullPath E latest) md5
      (requestFull E args latest w)).2 :=
    (w.lookUnless_emits _).trans ((Emits.emit _ transfer).trans (downloadUrlFileUnknownSize_emits ..))
  have ok : (downloadUrlFileUnknownSize E C (latestFullFetch E latest) (latestFullPath E latest) md5
      (requestFull E args latest w)).1 = true → _ := downloadUrlFileUnknownSize_ok
  simp only [downloadFullBuild]
  simp only [requestFull, latestFullPath] at requested ok ⊢
  split
  · obtain ⟨bytes, read, rfl⟩ := ok ‹_›
    refine requested.trans (.event _ (ready bytes published) rfl ?_)
    rw [World.setReady_trace, read]
    rfl
  · split
    · exact requested.trans (.of_eq rfl rfl)
    · exact requested.trans (.of_eq rfl rfl)

include transfer ready in
/-- Apart from a build, the delta branch handles full ZIPs only. -/
theorem deltaBranch_emits {plan : Plan} {w : World}
    (build : StartsChain E C args latest plan w → ∀ exit, BuildExit E C args plan (planWorld E latest plan w) exit →
      Emits P (planWorld E latest plan w) (complete E C args latest exit).world) :
    Emits P w (complete E C args latest (deltaBranch E C args latest plan w)).world := by
  have flag := (planDelta_planned (E := E) latest plan w).flag
  have planned : Emits P w (planDelta E latest plan w).2 := (planDelta_planned latest plan w).emits ready
  have entered : Emits P w (planWorld E latest plan w) := planned.trans (.of_eq rfl rfl)
  generalize exited : complete E C args latest (deltaBranch E C args latest plan w) = exit
  have branch := exited ▸ deltaBranch_exit E C args latest plan w
  cases branch with
  | checked => exact planned
  | unreadable => exact entered
  | crowded => exact entered.trans (.of_eq rfl rfl)
  | idle => exact entered
  | built mode unneeded space exit built =>
    exact entered.trans (build ⟨mode, flag.symm.trans unneeded, space⟩ exit built)
  | full => exact entered.trans (finishFull_emits transfer ready true _)

include transfer ready in
/-- The branch without deltas handles a reusable ZIP and full ZIPs. -/
theorem fullBranch_emits {reuse : Option String} {w : World} (sound : w.state.isErrorState = false)
    (reused : ∀ f, reuse = some f → P (.ready f (w.files.read f))) :
    Emits P w (complete E C args latest (fullBranch E args latest reuse w)).world := by
  have planned : Emits P w (planFull E latest w).2 := (planFull_planned _ _ sound).emits ready
  cases reuse with
  | some f => exact .event _ (reused f rfl) rfl rfl
  | none =>
    simp only [fullBranch]
    split
    · exact planned
    · exact planned.trans (finishFull_emits transfer ready _ _)

end Events

/-! ## Full builds -/

/-- The branch without deltas has the full ZIP on the storage or downloads it. -/
def SingleFull (E : Env) (C : Conditions) (args : Args) (latest : String) (w : World) : Prop :=
  isNewer E latest = true ∧
    (fullVerified E w.files latest = true ∨ FullDownload E C args latest (planFull E latest w).2)

/-- **The offers of the branch without deltas**, when there is no past work. -/
theorem fullBranch_offered {w : World} (sound : w.state.isErrorState = false)
    (fresh : w.prefs.readyFilename = none) (f : String) :
    (complete E C args latest (fullBranch E args latest none w)).offered = some f ↔
      SingleFull E C args latest w ∧ f = latestFullPath E latest := by
  have planned := planFull_planned E latest sound
  have ready : (planFull E latest w).2.offered = some f ↔
      (isNewer E latest = true ∧ fullVerified E w.files latest = true) ∧ f = latestFullPath E latest := by
    rw [World.offered_of_sound planned.sound, planned.ready, fresh, ← Bool.and_eq_true]
    split
    · rename_i found
      exact ⟨fun some => ⟨found, (Option.some.inj some).symm⟩, fun both => congrArg some both.2.symm⟩
    · rename_i found
      exact ⟨nofun, fun both => absurd both.1 found⟩
  have stays : (¬ (planFull E latest w).1 = true ∨ args.checkOnly = autoDownloadCheck) →
      (SingleFull E C args latest w ↔ isNewer E latest = true ∧ fullVerified E w.files latest = true) := by
    intro noDownload
    refine and_congr_right fun newer => ⟨fun either => ?_, .inl⟩
    rcases either with verified | download
    · exact verified
    · rcases noDownload with unneeded | check
      · rw [planned.flag, newer] at unneeded
        simpa using unneeded
      · exact absurd (check.symm.trans download.mode) (by decide)
  simp only [fullBranch]
  by_cases mode : args.checkOnly = autoDownloadCheck
  · rw [if_pos mode, stays (.inr mode)]
    exact ready
  rw [if_neg mode]
  cases flag : (planFull E latest w).1 with
  | false =>
    simp only [complete, finishFull_false]
    rw [stays (.inl (by rw [flag]; exact Bool.false_ne_true))]
    exact ready
  | true =>
    have needed : isNewer E latest = true ∧ fullVerified E w.files latest = false := by
      rw [planned.flag, Bool.and_eq_true, Bool.not_eq_true'] at flag
      exact flag
    have none : (planFull E latest w).2.prefs.readyFilename = none := by
      rw [planned.ready, needed.2, Bool.and_false, if_neg Bool.false_ne_true, fresh]
    simp only [complete, Exit.offered]
    rw [finishFull_offered none]
    refine and_congr_left fun _ => ⟨fun download => ⟨needed.1, .inr download⟩, fun ⟨_, either⟩ => ?_⟩
    exact either.resolve_left fun verified => nomatch verified.symm.trans needed.2

/-! ## A run -/

/-- A run that has looked for past work offers the full build. -/
inductive OffersFull (E : Env) (C : Conditions) (args : Args) (latest : String) (ds : List DeltaInfo) (w : World) : Prop
  | reused (kept : keptDeltas E w.files latest ds = [])
      (reuse : (findReusable E w.files latest ds).isSome = true)
  | single (kept : keptDeltas E w.files latest ds = []) (unused : findReusable E w.files latest ds = none)
      (full : SingleFull E C args latest w)
  | planned (first : DeltaInfo) (rest : List DeltaInfo) (kept : keptDeltas E w.files latest ds = first :: rest)
      (full : PlannedFull E C args latest (makePlan E w.files first rest) w)

/-- A run that has looked for past work offers what `plan` leads to. -/
inductive OffersChain (E : Env) (C : Conditions) (args : Args) (latest : String) (ds : List DeltaInfo) (w : World) :
    Plan → Prop
  | planned (first : DeltaInfo) (rest : List DeltaInfo) (kept : keptDeltas E w.files latest ds = first :: rest)
      (chain : PlannedChain E C args latest (makePlan E w.files first rest) w) :
      OffersChain E C args latest ds w (makePlan E w.files first rest)

/-- A reusable ZIP is the one of the latest full build. -/
theorem reusable_name {files : FileStore} {d : DeltaInfo} (reuse : reusable E files latest d = true) :
    d.out.name = latest := by
  rw [reusable, Bool.and_eq_true, beq_iff_eq] at reuse
  exact reuse.2.symm

variable (E C args latest) in
theorem branch_offered (ds : List DeltaInfo) {w : World} (sound : w.state.isErrorState = false)
    (fresh : w.prefs.readyFilename = none) (f : String) :
    (complete E C args latest (branch E C args latest ds w)).offered = some f ↔
      OffersFull E C args latest ds w ∧ f = latestFullPath E latest ∨
        ∃ plan, OffersChain E C args latest ds w plan ∧ f = plan.flashFilename := by
  unfold branch
  cases kept : keptDeltas E w.files latest ds with
  | nil =>
    have noChain : ∀ plan, ¬ OffersChain E C args latest ds w plan := by
      rintro _ ⟨first, rest, some, -⟩
      exact nomatch kept.symm.trans some
    cases reuse : findReusable E w.files latest ds with
    | none =>
      simp only [Option.map_none]
      rw [fullBranch_offered sound fresh]
      constructor
      · exact fun ⟨full, eq⟩ => .inl ⟨.single kept reuse full, eq⟩
      · rintro (⟨offers, eq⟩ | ⟨plan, chain, -⟩)
        · cases offers with
          | reused _ some => exact nomatch (reuse ▸ some : Option.isSome none = true)
          | single _ _ full => exact ⟨full, eq⟩
          | planned first rest some => exact nomatch kept.symm.trans some
        · exact absurd chain (noChain plan)
    | some found =>
      have name : found.1.out.name = latest := reusable_name (findReusable_some reuse).1
      have offered : (w.setReady (latestFullPath E latest)).offered = some (latestFullPath E latest) :=
        World.offered_of_sound sound
      simp only [Option.map_some, fullBranch, complete, Exit.offered, name]
      rw [← latestFullPath, offered]
      constructor
      · exact fun some => .inl ⟨.reused kept (by rw [reuse]; rfl), (Option.some.inj some).symm⟩
      · rintro (⟨-, eq⟩ | ⟨plan, chain, -⟩)
        · exact congrArg some eq.symm
        · exact absurd chain (noChain plan)
  | cons first rest =>
    simp only
    rw [deltaBranch_offered fresh]
    refine or_congr (and_congr_left fun _ => ?_) ?_
    · refine ⟨fun full => .planned first rest kept full, fun offers => ?_⟩
      cases offers with
      | reused none => exact nomatch kept.symm.trans none
      | single none => exact nomatch kept.symm.trans none
      | planned first' rest' some full =>
        cases kept.symm.trans some
        exact full
    · refine ⟨fun ⟨chain, eq⟩ => ⟨_, .planned first rest kept chain, eq⟩, ?_⟩
      rintro ⟨_, ⟨first', rest', some, chain⟩, eq⟩
      cases kept.symm.trans some
      exact ⟨chain, eq⟩

theorem searchPastWork_files (ds : List DeltaInfo) (w : World) :
    (searchPastWork E latest ds w).files = w.files := by
  simp only [searchPastWork]
  split <;> simp

theorem searchPastWork_trace (ds : List DeltaInfo) (w : World) :
    (searchPastWork E latest ds w).trace = w.trace := by
  simp only [searchPastWork]
  split <;> simp

theorem searchPastWork_ready (ds : List DeltaInfo) (w : World) :
    (searchPastWork E latest ds w).prefs.readyFilename = w.prefs.readyFilename := by
  simp only [searchPastWork]
  split <;> simp

theorem searchPastWork_sound {w : World} (sound : w.state.isErrorState = false) (ds : List DeltaInfo) :
    (searchPastWork E latest ds w).state.isErrorState = false := by
  simp only [searchPastWork]
  split
  · exact World.digesting_sound sound _
  · exact World.digesting_sound sound _

/-- The world in which a run has looked for past work. -/
def searched (E : Env) (latest : String) (ds : List DeltaInfo) (w : World) : World :=
  searchPastWork E latest ds (startFor latest (w.updateState .checking))

variable (E latest) in
theorem searched_files (ds : List DeltaInfo) (w : World) : (searched E latest ds w).files = w.files :=
  searchPastWork_files ..

theorem searched_sound (ds : List DeltaInfo) (w : World) :
    (searched E latest ds w).state.isErrorState = false := searchPastWork_sound rfl ds

theorem searched_trace (ds : List DeltaInfo) (w : World) : (searched E latest ds w).trace = w.trace :=
  searchPastWork_trace ..

/-- Without a newest build a run ends in an error state. -/
theorem getNewestFullBuild_error {state : ServiceState} (failed : getNewestFullBuild E = .error state) :
    state.isErrorState = true := by
  unfold getNewestFullBuild at failed
  split at failed
  · cases failed
    rfl
  · split at failed
    · cases failed
      rfl
    · split at failed
      · cases failed
        rfl
      · cases failed

/-- The two ways of a run: no newest build, or the branches. -/
theorem checkForUpdatesAsync_cases {fuel : Nat} {w : World} {ending : Ending}
    (run : checkForUpdatesAsync E C args fuel w = some ending) :
    (∃ state, getNewestFullBuild E = .error state ∧
        ending = settle E C args (.returned ((start (w.updateState .checking)).updateState state))) ∨
      ∃ latest ds, getNewestFullBuild E = .ok latest ∧ fetched E fuel = some ds ∧
        ending = settle E C args (complete E C args latest (branch E C args latest ds (searched E latest ds w))) := by
  obtain ⟨exit, body, rfl⟩ := Option.map_eq_some_iff.mp run
  unfold runBody at body
  cases newest : getNewestFullBuild E with
  | error state =>
    rw [newest] at body
    exact .inl ⟨state, rfl, by rw [← Option.some.inj body]⟩
  | ok latest =>
    rw [newest] at body
    obtain ⟨ds, chain, rfl⟩ := Option.map_eq_some_iff.mp body
    exact .inr ⟨latest, ds, rfl, chain, rfl⟩

variable (C args) in
theorem checkForUpdatesAsync_eq {fuel : Nat} {ds : List DeltaInfo} (newest : getNewestFullBuild E = .ok latest)
    (chain : fetched E fuel = some ds) (w : World) :
    checkForUpdatesAsync E C args fuel w =
      some (settle E C args (complete E C args latest (branch E C args latest ds (searched E latest ds w)))) := by
  unfold checkForUpdatesAsync run runBody
  rw [newest]
  exact congrArg (Option.map (settle E C args)) (congrArg (Option.map _) chain)

/-- **What a run leaves ready** is the full build or the result of the chain. -/
theorem ready_iff {fuel : Nat} {w : World} {ending : Ending}
    (run : checkForUpdatesAsync E C args fuel w = some ending) (f : String) :
    ending.world.prefs.readyFilename = some f ↔
      ∃ latest ds, getNewestFullBuild E = .ok latest ∧ fetched E fuel = some ds ∧
        (OffersFull E C args latest ds (searched E latest ds w) ∧ f = latestFullPath E latest ∨
          ∃ plan, OffersChain E C args latest ds (searched E latest ds w) plan ∧ f = plan.flashFilename) := by
  rcases checkForUpdatesAsync_cases run with ⟨state, newest, rfl⟩ | ⟨latest, ds, newest, chain, rfl⟩
  · rw [settle_ready]
    refine ⟨fun some => ?_, fun ⟨latest, ds, newest', _⟩ => nomatch newest.symm.trans newest'⟩
    simp only [Exit.offered, World.offered] at some
    split at some <;> cases some
  · rw [settle_ready]
    have offered := branch_offered E C args latest ds (w := searched E latest ds w)
      (searchPastWork_sound rfl ds) (searchPastWork_ready ..) f
    rw [offered]
    refine ⟨fun either => ⟨latest, ds, newest, chain, either⟩, ?_⟩
    rintro ⟨latest', ds', newest', chain', either⟩
    cases newest.symm.trans newest'
    cases chain.symm.trans chain'
    exact either

end OpenDelta.Service
