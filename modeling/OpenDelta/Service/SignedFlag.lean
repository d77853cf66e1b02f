import OpenDelta.Service.Documents

/-!
# The signed flag

`PREF_DELTA_SIGNATURE` at the end of a run, route by route: set by a size in the
search for past work, set by every build, and kept by whatever else a run does
with the ready file.
-/

namespace OpenDelta.Service

variable {E : Env} {C : Conditions} {args : Args} {latest : String}

/-- The bytes of a file are a signed store form that a fetched delta leads to. -/
def HoldsSigned (E : Env) (ds : List DeltaInfo) (f : String) (files : FileStore) : Prop :=
  ∃ bytes, files.read f = some bytes ∧
    ∃ d ∈ ds, d.out.name = JavaString.getName f ∧ d.out.storeSigned.md5 = E.md5 bytes

/-- The search for past work sets the flag: a reusable ZIP has the size of its
signed form. -/
def FlagsReuse (E : Env) (latest : String) (ds : List DeltaInfo) (files : FileStore) : Prop :=
  ∃ found, findReusable E files latest ds = some found ∧
    found.1.out.isSignedFile files (E.config.getPathBase ++ found.1.out.name) = true

/-! ## What keeps the flag -/

/-- What a build notes down beside the ready file: the flag and the initial
file. -/
def Prefs.marks (p : Prefs) : Bool × Option String := (p.deltaSignature, p.initialFile)

theorem searchPastWork_flag (ds : List DeltaInfo) {w : World} (clear : w.prefs.deltaSignature = false) :
    (searchPastWork E latest ds w).prefs.deltaSignature = true ↔ FlagsReuse E latest ds w.files := by
  simp only [searchPastWork, World.digesting_files, FlagsReuse]
  cases findReusable E w.files latest ds with
  | none => simp [clear]
  | some found => simp

theorem searched_flag (ds : List DeltaInfo) (w : World) :
    (searched E latest ds w).prefs.deltaSignature = true ↔ FlagsReuse E latest ds w.files :=
  searchPastWork_flag ds rfl

variable (E latest) in
theorem takeFullBuild_marks (wants : Bool) (w : World) :
    (takeFullBuild E latest wants w).2.prefs.marks = w.prefs.marks := by
  rcases takeFullBuild_eq E latest wants w with ⟨-, eq⟩ | ⟨-, c, eq⟩
  · rw [eq]
    rfl
  · rw [eq, World.digesting_prefs]

variable (E latest) in
theorem planFull_marks (w : World) : (planFull E latest w).2.prefs.marks = w.prefs.marks := by
  have taken := takeFullBuild_marks E latest (isNewer E latest)
    (w.setPrefs (namesFull (isNewer E latest) w.prefs))
  simp only [planFull]
  split <;> exact taken

variable (E latest) in
theorem planDelta_marks (plan : Plan) (w : World) : (planDelta E latest plan w).2.prefs.marks = w.prefs.marks := by
  have taken := takeFullBuild_marks E latest (plan.wantsFull E latest)
    (((w.updateState .checking).updateState .searching).setPrefs (plan.names E latest w.prefs))
  simp only [planDelta]
  split
  · split
    · exact taken
    · split <;> exact taken
  · exact taken

theorem finishFull_marks (full : Bool) (w : World) :
    (finishFull E C args latest full w).prefs.marks = w.prefs.marks := by
  unfold finishFull
  split
  case isFalse => rfl
  simp only
  split
  case isFalse => rw [World.lookUnless_prefs]
  split
  case h_2 => rw [World.lookUnless_prefs]
  have kept : ∀ url path md5, (downloadUrlFileUnknownSize E C url path md5
      ((w.lookUnless args.userInitiated).emit (.transfer url path))).2.prefs = w.prefs := by
    intro url path md5
    rw [downloadUrlFileUnknownSize_prefs, World.emit_prefs, World.lookUnless_prefs]
  simp only [downloadFullBuild]
  split
  · show (downloadUrlFileUnknownSize E C _ _ _ _).2.prefs.marks = _
    rw [kept]
  · split
    · rw [World.lookAtStop_prefs, kept]
    · rw [World.updateState_prefs, World.lookAtStop_prefs, kept]

/-- The `finally` block keeps both with a ready file. -/
theorem settle_marks {exit : Exit} {f : String} (offered : exit.offered = some f) :
    (settle E C args exit).world.prefs.marks = exit.world.prefs.marks := by
  have kept : ∀ w : World, w.offered = some f → (runFinally E C args w).2.prefs.marks = w.prefs.marks := by
    intro w some
    have sound : ¬ w.state.isErrorState = true := by
      intro error
      rw [World.offered_of_error error] at some
      cases some
    rw [runFinally_prefs, if_neg sound]
    rfl
  cases exit with
  | returned w => exact (congrArg (·.prefs.marks) (conclude_world w)).trans (kept w offered)
  | continued full w => exact (congrArg (·.prefs.marks) (conclude_world w)).trans (kept w offered)
  | threw w => exact kept w offered
  | aborted w => rfl

theorem settle_flag {exit : Exit} {f : String} (offered : exit.offered = some f) :
    (settle E C args exit).world.prefs.deltaSignature = exit.world.prefs.deltaSignature :=
  congrArg Prod.fst (settle_marks offered)

theorem settle_files (exit : Exit) : (settle E C args exit).world.files = exit.world.files := by
  cases exit with
  | returned w => exact (congrArg (·.files) (conclude_world w)).trans (runFinally_files w)
  | continued full w => exact (congrArg (·.files) (conclude_world w)).trans (runFinally_files w)
  | threw w => exact runFinally_files w
  | aborted w => rfl

/-! ## The delta branch -/

theorem BuildExit.complete_world {plan : Plan} {w : World} {exit : Exit} (build : BuildExit E C args plan w exit) :
    (complete E C args latest exit).world = exit.world := by
  cases build with
  | stopped => rfl
  | crashed => rfl
  | failed => rfl
  | stored => simp only [complete, finishFull_false, Exit.world]

variable {plan : Plan} {w : World} {f : String}

/-- Where the chain is started, the branch is its build. -/
theorem StartsChain.deltaBranch_eq (starts : StartsChain E C args latest plan w) :
    deltaBranch E C args latest plan w = buildDelta E C args plan (planWorld E latest plan w) := by
  have planned := planDelta_planned (E := E) latest plan w
  have flag := planned.flag.trans starts.unneeded
  have more := starts.mode
  obtain ⟨freeSpace, space, enough⟩ := starts.space
  simp only [deltaBranch]
  rw [if_neg (by omega), planned.spaceReads, space]
  simp only
  rw [flag, if_neg enough, if_pos ⟨rfl, more⟩]
  rfl

/-- A full build that is offered keeps what is noted down. -/
theorem deltaBranch_marks (offered : (complete E C args latest (deltaBranch E C args latest plan w)).offered = some f)
    (unbuilt : ¬ PlannedChain E C args latest plan w) :
    (complete E C args latest (deltaBranch E C args latest plan w)).world.prefs.marks = w.prefs.marks := by
  have flag := (planDelta_planned (E := E) latest plan w).flag
  have planned := planDelta_marks E latest plan w
  generalize exited : complete E C args latest (deltaBranch E C args latest plan w) = exit at offered ⊢
  have branch := exited ▸ deltaBranch_exit E C args latest plan w
  cases branch with
  | checked => exact planned
  | unreadable => exact planned
  | crowded => exact planned
  | idle => exact planned
  | full => exact (finishFull_marks true _).trans planned
  | built mode unneeded space exit build =>
    rw [build.complete_world]
    cases build with
    | stopped w' _ prefs => exact (congrArg Prefs.marks prefs).trans planned
    | crashed w' _ prefs => exact (congrArg Prefs.marks prefs).trans planned
    | failed w' _ _ _ error => exact nomatch (World.offered_of_error error).symm.trans offered
    | stored w' built => exact absurd ⟨⟨mode, flag.symm.trans unneeded, space⟩, built⟩ unbuilt

/-- A build sets it. -/
theorem PlannedChain.flag (chain : PlannedChain E C args latest plan w) :
    (complete E C args latest (deltaBranch E C args latest plan w)).world.prefs.deltaSignature = true := by
  have build := buildDelta_exit E C args plan (planWorld E latest plan w)
  rw [chain.toStartsChain.deltaBranch_eq, build.complete_world]
  generalize buildDelta E C args plan (planWorld E latest plan w) = exit at build
  cases build with
  | stopped _ broken => exact absurd broken chain.built.not_broken
  | crashed _ broken => exact absurd broken chain.built.not_broken
  | failed _ unbuilt => exact absurd chain.built unbuilt
  | stored w' => rfl

/-- The files after a build that goes through. -/
def builtFiles (E : Env) (C : Conditions) (args : Args) (plan : Plan) (w : World) : FileStore :=
  cleanup E (plan.patch E (plan.download E C args w).2).2.files plan.deltas

theorem Built.files (built : Built E C args plan w) :
    (buildDelta E C args plan w).world.files = builtFiles E C args plan w := by
  simp only [buildDelta, World.digesting_files]
  rw [if_pos built.downloaded, built.applied]
  simp only
  rw [if_pos built.verified]
  simp only [Exit.world, storeResult, World.setReady_files, World.setPrefs_files, World.digesting_files]
  rfl

/-- The branch does not come to its build. -/
def Quiet (C : Conditions) (args : Args) (w : World) : Prop :=
  args.checkOnly ≤ autoDownloadCheck ∨ C.freeSpace w.spaceReads = none

theorem deltaBranch_files (verified : fullVerified E w.files latest = true) (quiet : Quiet C args w) :
    (complete E C args latest (deltaBranch E C args latest plan w)).world.files = w.files := by
  have planned := planDelta_planned (E := E) latest plan w
  generalize exited : complete E C args latest (deltaBranch E C args latest plan w) = exit
  have branch := exited ▸ deltaBranch_exit E C args latest plan w
  cases branch with
  | checked => exact planned.files
  | unreadable => exact planned.files
  | crowded => exact planned.files
  | idle => exact planned.files
  | full _ needed =>
    rw [planned.flag, verified, Bool.not_true, Bool.and_false] at needed
    cases needed
  | built mode _ space =>
    obtain ⟨freeSpace, some, -⟩ := space
    rcases quiet with low | none
    · omega
    · exact nomatch none.symm.trans some

/-- A full ZIP that was downloaded has the published MD5. -/
theorem FullDownload.read (download : FullDownload E C args latest w) :
    ∃ bytes, (finishFull E C args latest true w).files.read (latestFullPath E latest) = some bytes ∧
      getLatestFullMd5Sum E (latestFullFetch E latest) = some (E.md5 bytes) := by
  obtain ⟨mode, allowed, md5, published, ok⟩ := download
  obtain ⟨bytes, read, same⟩ := downloadUrlFileUnknownSize_ok ok
  refine ⟨bytes, ?_, by rw [published, same]⟩
  simp only [finishFull, true_and]
  rw [if_pos mode, if_pos allowed, published]
  simp only [downloadFullBuild]
  simp only [requestFull, latestFullPath] at ok read ⊢
  rw [if_pos ok]
  exact read

/-- Where the full ZIP is wanted and not there, the branch goes on to its
download. -/
theorem deltaBranch_downloads (wants : plan.wantsFull E latest = true) (unverified : fullVerified E w.files latest = false)
    (space : EnoughSpace E C plan true w) (mode : args.checkOnly = autoDownloadFull) :
    complete E C args latest (deltaBranch E C args latest plan w) =
      .returned (finishFull E C args latest true (planWorld E latest plan w)) := by
  have planned := planDelta_planned (E := E) latest plan w
  have flag : (planDelta E latest plan w).1 = true := by rw [planned.flag, wants, unverified]; rfl
  obtain ⟨freeSpace, space, enough⟩ := space
  simp only [deltaBranch]
  rw [if_neg (by rw [mode]; decide), planned.spaceReads, space]
  simp only
  rw [flag, if_neg enough, if_neg (by simp)]
  rfl

/-- A branch offers the full build or its result, not both. -/
theorem PlannedFull.not_chain (full : PlannedFull E C args latest plan w) : ¬ PlannedChain E C args latest plan w := by
  intro chain
  have more := chain.mode
  cases full with
  | found wants verified keeps =>
    cases keeps with
    | checked check => omega
    | unreadable none =>
      obtain ⟨freeSpace, some, -⟩ := chain.space
      exact nomatch none.symm.trans some
    | idle low => omega
    | broken _ _ broken => exact chain.built.not_broken broken
  | downloaded wants unverified =>
    have unneeded := chain.unneeded
    rw [wants, unverified] at unneeded
    cases unneeded

theorem Quiet.not_starts (quiet : Quiet C args w) : ¬ StartsChain E C args latest plan w := by
  intro starts
  have more := starts.mode
  obtain ⟨freeSpace, some, -⟩ := starts.space
  rcases quiet with low | none
  · omega
  · exact nomatch none.symm.trans some

/-- What a branch leaves: the flag, and a signed form behind it. -/
def Exit.FlagsSigned (E : Env) (ds : List DeltaInfo) (exit : Exit) : Prop :=
  ∀ f, exit.world.prefs.deltaSignature = true → exit.offered = some f → HoldsSigned E ds f exit.world.files

/-- The result of a build. -/
theorem PlannedChain.readySigned_iff (ds : List DeltaInfo) (fresh : w.prefs.readyFilename = none)
    (chain : PlannedChain E C args latest plan w) :
    (complete E C args latest (deltaBranch E C args latest plan w)).FlagsSigned E ds ↔
      HoldsSigned E ds plan.flashFilename (builtFiles E C args plan (planWorld E latest plan w)) := by
  have offered := (deltaBranch_offered fresh plan.flashFilename).mpr (.inr ⟨chain, rfl⟩)
  have flag := chain.flag
  have build := buildDelta_exit E C args plan (planWorld E latest plan w)
  have files : (complete E C args latest (deltaBranch E C args latest plan w)).world.files =
      builtFiles E C args plan (planWorld E latest plan w) := by
    rw [chain.toStartsChain.deltaBranch_eq, build.complete_world, chain.built.files]
  rw [Exit.FlagsSigned, files]
  constructor
  · exact fun signed => signed _ flag offered
  · intro holds f _ offered'
    cases offered.symm.trans offered'
    exact holds

/-- A full build, from a world whose flag is set. -/
theorem PlannedFull.readySigned_iff (ds : List DeltaInfo) (fresh : w.prefs.readyFilename = none)
    (full : PlannedFull E C args latest plan w) (flagged : w.prefs.deltaSignature = true) :
    (complete E C args latest (deltaBranch E C args latest plan w)).FlagsSigned E ds ↔
      HoldsSigned E ds (latestFullPath E latest)
        (complete E C args latest (deltaBranch E C args latest plan w)).world.files := by
  have offered := (deltaBranch_offered fresh _).mpr (.inl ⟨full, rfl⟩)
  have flag := (congrArg Prod.fst (deltaBranch_marks offered full.not_chain)).trans flagged
  constructor
  · exact fun signed => signed _ flag offered
  · intro holds f _ offered'
    cases offered.symm.trans offered'
    exact holds

theorem fullBranch_marks (w : World) :
    (complete E C args latest (fullBranch E args latest none w)).world.prefs.marks = w.prefs.marks := by
  have planned := planFull_marks E latest w
  simp only [fullBranch]
  split
  · exact planned
  · exact (finishFull_marks _ _).trans planned

end OpenDelta.Service
