import OpenDelta.Service.Leftovers

/-!
# Where the signed flag is wrong

The flag is set by a size in the search for past work, and by every build. What
the ready file is in the end depends on what lay under its name, on what came
there, and on what the deltas decode to.
-/

namespace OpenDelta.Service

variable {E : Env} {C : Conditions} {args : Args} {latest : String} {plan : Plan} {w : World}

/-- An MD5 is that of the signed store form that a fetched delta leads to under
the name of a file. -/
def SignsAs (ds : List DeltaInfo) (f : String) (md5 : Option String) : Prop :=
  ∃ d ∈ ds, d.out.name = JavaString.getName f ∧ md5 = some d.out.storeSigned.md5

theorem holdsSigned_iff (ds : List DeltaInfo) (f : String) (files : FileStore) :
    HoldsSigned E ds f files ↔ SignsAs ds f ((files.read f).map E.md5) := by
  constructor
  · rintro ⟨bytes, read, d, member, name, same⟩
    exact ⟨d, member, name, by rw [read, same]; rfl⟩
  · rintro ⟨d, member, name, same⟩
    obtain ⟨bytes, read, md5⟩ := Option.map_eq_some_iff.mp same
    exact ⟨bytes, read, d, member, name, md5.symm⟩

/-! ## The plan of a run -/

/-- Without an initial file there is nothing to process. -/
theorem makePlan_sourceless {files : FileStore} {first : DeltaInfo} {rest : List DeltaInfo}
    (missing : (makePlan E files first rest).initialFile = none) :
    (makePlan E files first rest).needsProcessing = false := by
  simp only [makePlan, findInitialFile] at missing ⊢
  split at missing
  · cases missing
  · split at missing
    · rfl
    · cases missing

/-! ## A build that breaks off -/

variable (E C args) in
/-- The MD5 that a build leaves under a path when it breaks off: gone with the first
output where all files came, and otherwise what the downloads leave. -/
def Plan.brokenMD5 (plan : Plan) (path : String) (w : World) : Option String :=
  if (fetchFiles E C args.userInitiated (plan.wanted E) w.loading).1 = true ∧
      w.files.resolve path = w.files.resolve (plan.firstOutput E) then none
  else leftMD5 E C args.userInitiated path (plan.wanted E) w.loading ((w.files.read path).map E.md5)

theorem BrokenOff.md5 (broken : BrokenOff E C args plan w) (nonempty : plan.deltas ≠ [])
    (sourceless : plan.initialFile = none → plan.needsProcessing = false) (path : String) :
    ((buildDelta E C args plan w).world.files.read path).map E.md5 = plan.brokenMD5 E C args path w := by
  obtain ⟨came, files⟩ := plan.download_fetches (E := E) (C := C) args w
  obtain ⟨left, resolve⟩ := fetchFiles_md5 (E := E) (C := C) args.userInitiated path (plan.wanted E) w.loading
  rw [← files] at left resolve
  have loading : w.loading.files = w.files := rfl
  rw [loading] at left resolve
  rw [Plan.brokenMD5, ← came]
  cases broken with
  | download refused =>
    simp only [buildDelta, refused, Bool.false_eq_true, if_false, false_and]
    exact left
  | patch downloaded crashed =>
    have gone := Plan.patch_crashed nonempty sourceless crashed
    simp only [buildDelta, downloaded, if_true, crashed, Exit.world, true_and]
    rw [gone]
    by_cases hit : w.files.resolve path = w.files.resolve (plan.firstOutput E)
    · rw [if_pos hit]
      have same : (plan.download E C args w).2.files.resolve path =
          (plan.download E C args w).2.files.resolve (plan.firstOutput E) := by rw [resolve, hit]
      simp [FileStore.read, FileStore.delete, same]
    · rw [if_neg hit, FileStore.read_delete_of_ne (by rw [resolve]; exact hit)]
      exact left

/-! ## Where the flag is wrong -/

/-- A run that has looked for past work leaves the flag with a file that is no
signed form: a reusable ZIP of the size of one, a full ZIP in its place, or what
the deltas decode to. -/
inductive Misflagged (E : Env) (C : Conditions) (args : Args) (latest : String) (ds : List DeltaInfo) (w : World) : Prop
  | reused (kept : keptDeltas E w.files latest ds = []) (flags : FlagsReuse E latest ds w.files)
      (unsigned : ¬ SignsAs ds (latestFullPath E latest) ((w.files.read (latestFullPath E latest)).map E.md5))
  | found (first : DeltaInfo) (rest : List DeltaInfo) (kept : keptDeltas E w.files latest ds = first :: rest)
      (flags : FlagsReuse E latest ds w.files)
      (full : PlannedFull E C args latest (makePlan E w.files first rest) w)
      (verified : fullVerified E w.files latest = true) (quiet : Quiet C args w)
      (unsigned : ¬ SignsAs ds (latestFullPath E latest) ((w.files.read (latestFullPath E latest)).map E.md5))
  | broken (first : DeltaInfo) (rest : List DeltaInfo) (kept : keptDeltas E w.files latest ds = first :: rest)
      (flags : FlagsReuse E latest ds w.files)
      (full : PlannedFull E C args latest (makePlan E w.files first rest) w)
      (starts : StartsChain E C args latest (makePlan E w.files first rest) w)
      (unsigned : ¬ SignsAs ds (latestFullPath E latest) ((makePlan E w.files first rest).brokenMD5 E C args
        (latestFullPath E latest) (planWorld E latest (makePlan E w.files first rest) w)))
  | downloaded (first : DeltaInfo) (rest : List DeltaInfo) (kept : keptDeltas E w.files latest ds = first :: rest)
      (flags : FlagsReuse E latest ds w.files)
      (full : PlannedFull E C args latest (makePlan E w.files first rest) w)
      (unverified : fullVerified E w.files latest = false)
      (unsigned : ¬ SignsAs ds (latestFullPath E latest) (getLatestFullMd5Sum E (latestFullFetch E latest)))
  | built (first : DeltaInfo) (rest : List DeltaInfo) (kept : keptDeltas E w.files latest ds = first :: rest)
      (chain : PlannedChain E C args latest (makePlan E w.files first rest) w)
      (unsigned : ¬ ((makePlan E w.files first rest).Spares E w.files ∧
        SignsAs ds (makePlan E w.files first rest).flashFilename
          (((makePlan E w.files first rest).decodes E ((makePlan E w.files first rest).download E C args
            (planWorld E latest (makePlan E w.files first rest) w)).2.files).map E.md5)))

/-- The file of a full build that is offered, and the cases of `Misflagged` that
speak of it. -/
theorem PlannedFull.misflagged_iff {ds : List DeltaInfo} {first : DeltaInfo} {rest : List DeltaInfo}
    (kept : keptDeltas E w.files latest ds = first :: rest) (flags : FlagsReuse E latest ds w.files)
    (full : PlannedFull E C args latest (makePlan E w.files first rest) w) :
    Misflagged E C args latest ds w ↔ ¬ HoldsSigned E ds (latestFullPath E latest)
      (complete E C args latest (deltaBranch E C args latest (makePlan E w.files first rest) w)).world.files := by
  have cases_of : Misflagged E C args latest ds w ↔
      (fullVerified E w.files latest = true ∧ Quiet C args w ∧
        ¬ SignsAs ds (latestFullPath E latest) ((w.files.read (latestFullPath E latest)).map E.md5)) ∨
      (StartsChain E C args latest (makePlan E w.files first rest) w ∧
        ¬ SignsAs ds (latestFullPath E latest) ((makePlan E w.files first rest).brokenMD5 E C args
          (latestFullPath E latest) (planWorld E latest (makePlan E w.files first rest) w))) ∨
      (fullVerified E w.files latest = false ∧
        ¬ SignsAs ds (latestFullPath E latest) (getLatestFullMd5Sum E (latestFullFetch E latest))) := by
    constructor
    · intro misflagged
      cases misflagged with
      | reused none => exact nomatch kept.symm.trans none
      | found _ _ _ _ _ verified quiet unsigned => exact .inl ⟨verified, quiet, unsigned⟩
      | broken _ _ kept' _ _ starts unsigned =>
        cases kept.symm.trans kept'
        exact .inr (.inl ⟨starts, unsigned⟩)
      | downloaded _ _ _ _ _ unverified unsigned => exact .inr (.inr ⟨unverified, unsigned⟩)
      | built _ _ kept' chain =>
        cases kept.symm.trans kept'
        exact absurd chain full.not_chain
    · rintro (⟨verified, quiet, unsigned⟩ | ⟨starts, unsigned⟩ | ⟨unverified, unsigned⟩)
      · exact .found first rest kept flags full verified quiet unsigned
      · exact .broken first rest kept flags full starts unsigned
      · exact .downloaded first rest kept flags full unverified unsigned
  rw [cases_of, holdsSigned_iff]
  cases full with
  | found wants verified keeps =>
    have starts_or : Quiet C args w ∨ StartsChain E C args latest (makePlan E w.files first rest) w ∧
        BrokenOff E C args (makePlan E w.files first rest) (planWorld E latest (makePlan E w.files first rest) w) := by
      cases keeps with
      | checked check => exact .inl (.inl (by omega))
      | unreadable none => exact .inl (.inr none)
      | idle low => exact .inl (.inl (by omega))
      | broken more space broken =>
        exact .inr ⟨⟨more, by rw [verified, Bool.not_true, Bool.and_false], space⟩, broken⟩
    rcases starts_or with quiet | ⟨starts, broken⟩
    · rw [deltaBranch_files verified quiet]
      constructor
      · rintro (⟨-, -, unsigned⟩ | ⟨starts, -⟩ | ⟨unverified, -⟩)
        · exact unsigned
        · exact absurd starts quiet.not_starts
        · exact nomatch verified.symm.trans unverified
      · exact fun unsigned => .inl ⟨verified, quiet, unsigned⟩
    · have build := buildDelta_exit E C args (makePlan E w.files first rest)
        (planWorld E latest (makePlan E w.files first rest) w)
      rw [starts.deltaBranch_eq, build.complete_world,
        broken.md5 (makePlan_nonempty E w.files first rest) makePlan_sourceless (latestFullPath E latest)]
      constructor
      · rintro (⟨-, quiet, -⟩ | ⟨-, unsigned⟩ | ⟨unverified, -⟩)
        · exact absurd starts quiet.not_starts
        · exact unsigned
        · exact nomatch verified.symm.trans unverified
      · exact fun unsigned => .inr (.inl ⟨starts, unsigned⟩)
  | downloaded wants unverified space download =>
    have unstarted : ¬ StartsChain E C args latest (makePlan E w.files first rest) w := by
      intro starts
      have unneeded := starts.unneeded
      rw [wants, unverified] at unneeded
      cases unneeded
    obtain ⟨bytes, read, published⟩ := download.read
    rw [deltaBranch_downloads wants unverified space download.mode, Exit.world, read, Option.map_some, ← published]
    constructor
    · rintro (⟨verified, -⟩ | ⟨starts, -⟩ | ⟨-, unsigned⟩)
      · exact nomatch verified.symm.trans unverified
      · exact absurd starts unstarted
      · exact unsigned
    · exact fun unsigned => .inr (.inr ⟨unverified, unsigned⟩)

/-- The result of a chain that is built. -/
theorem PlannedChain.holdsSigned_iff {ds : List DeltaInfo} {first : DeltaInfo} {rest : List DeltaInfo}
    (chain : PlannedChain E C args latest (makePlan E w.files first rest) w) :
    HoldsSigned E ds (makePlan E w.files first rest).flashFilename
        (builtFiles E C args (makePlan E w.files first rest) (planWorld E latest (makePlan E w.files first rest) w)) ↔
      (makePlan E w.files first rest).Spares E w.files ∧ SignsAs ds (makePlan E w.files first rest).flashFilename
        (((makePlan E w.files first rest).decodes E ((makePlan E w.files first rest).download E C args
          (planWorld E latest (makePlan E w.files first rest) w)).2.files).map E.md5) := by
  have result := chain.built.result (makePlan_nonempty E w.files first rest) makePlan_sourceless rfl
  have files : (planWorld E latest (makePlan E w.files first rest) w).files = w.files :=
    (planDelta_planned (E := E) latest (makePlan E w.files first rest) w).files
  have resolve : ((makePlan E w.files first rest).download E C args
      (planWorld E latest (makePlan E w.files first rest) w)).2.files.resolve = w.files.resolve := by
    rw [(Plan.download_fetches ..).2, (fetchFiles_md5 _ "" _ _).2]
    exact congrArg FileStore.resolve files
  have spares : (makePlan E w.files first rest).Spares E ((makePlan E w.files first rest).download E C args
      (planWorld E latest (makePlan E w.files first rest) w)).2.files ↔
        (makePlan E w.files first rest).Spares E w.files := by
    rw [Plan.Spares, Plan.Spares, resolve]
  rw [← spares]
  constructor
  · rintro ⟨bytes, read, d, member, name, same⟩
    obtain ⟨left, decodes⟩ := (result bytes).mp read
    exact ⟨left, d, member, name, by rw [decodes, same]; rfl⟩
  · rintro ⟨left, d, member, name, same⟩
    obtain ⟨bytes, decodes, md5⟩ := Option.map_eq_some_iff.mp same
    exact ⟨bytes, (result bytes).mpr ⟨left, decodes⟩, d, member, name, md5.symm⟩

variable (E C args latest) in
/-- The branches, from the search for past work on. -/
theorem branch_signed_iff (ds : List DeltaInfo) {w : World} (sound : w.state.isErrorState = false)
    (fresh : w.prefs.readyFilename = none)
    (flag : w.prefs.deltaSignature = true ↔ FlagsReuse E latest ds w.files) :
    (complete E C args latest (branch E C args latest ds w)).FlagsSigned E ds ↔ ¬ Misflagged E C args latest ds w := by
  unfold branch
  cases kept : keptDeltas E w.files latest ds with
  | nil =>
    have only : Misflagged E C args latest ds w ↔
        FlagsReuse E latest ds w.files ∧ ¬ HoldsSigned E ds (latestFullPath E latest) w.files := by
      rw [holdsSigned_iff]
      constructor
      · intro misflagged
        cases misflagged with
        | reused _ flags unsigned => exact ⟨flags, unsigned⟩
        | found _ _ kept' => cases kept.symm.trans kept'
        | broken _ _ kept' => cases kept.symm.trans kept'
        | downloaded _ _ kept' => cases kept.symm.trans kept'
        | built _ _ kept' => cases kept.symm.trans kept'
      · exact fun both => .reused kept both.1 both.2
    rw [only]
    cases reuse : findReusable E w.files latest ds with
    | none =>
      have unflagged : ¬ FlagsReuse E latest ds w.files := by
        rintro ⟨found, some, -⟩
        cases reuse.symm.trans some
      refine ⟨fun _ both => unflagged both.1, fun _ f set => ?_⟩
      have kept : (complete E C args latest (fullBranch E args latest none w)).world.prefs.deltaSignature =
          w.prefs.deltaSignature := congrArg Prod.fst (fullBranch_marks w)
      exact absurd (flag.mp (kept.symm.trans set)) unflagged
    | some found =>
      have name : found.1.out.name = latest := reusable_name (findReusable_some reuse).1
      simp only [Option.map_some, fullBranch, complete, Exit.FlagsSigned, Exit.offered, Exit.world, name]
      rw [← latestFullPath]
      have offered : (w.setReady (latestFullPath E latest)).offered = some (latestFullPath E latest) :=
        World.offered_of_sound sound
      constructor
      · intro signed both
        exact both.2 (signed _ (flag.mpr both.1) offered)
      · intro right f set ready
        cases offered.symm.trans ready
        by_contra unsigned
        exact right ⟨flag.mp set, unsigned⟩
  | cons first rest =>
    simp only
    by_cases chain : PlannedChain E C args latest (makePlan E w.files first rest) w
    · rw [chain.readySigned_iff ds fresh, chain.holdsSigned_iff]
      constructor
      · intro holds misflagged
        cases misflagged with
        | reused none => cases kept.symm.trans none
        | found _ _ kept' _ full =>
          cases kept.symm.trans kept'
          exact full.not_chain chain
        | broken _ _ kept' _ full =>
          cases kept.symm.trans kept'
          exact full.not_chain chain
        | downloaded _ _ kept' _ full =>
          cases kept.symm.trans kept'
          exact full.not_chain chain
        | built _ _ kept' _ unsigned =>
          cases kept.symm.trans kept'
          exact unsigned holds
      · intro right
        by_contra unsigned
        exact right (.built first rest kept chain unsigned)
    · by_cases full : PlannedFull E C args latest (makePlan E w.files first rest) w ∧ FlagsReuse E latest ds w.files
      · rw [full.1.readySigned_iff ds fresh (flag.mpr full.2), full.1.misflagged_iff kept full.2, not_not]
      · refine ⟨fun _ misflagged => ?_, fun _ f set offered => ?_⟩
        · cases misflagged with
          | reused none => cases kept.symm.trans none
          | found _ _ kept' flags planned =>
            cases kept.symm.trans kept'
            exact full ⟨planned, flags⟩
          | broken _ _ kept' flags planned =>
            cases kept.symm.trans kept'
            exact full ⟨planned, flags⟩
          | downloaded _ _ kept' flags planned =>
            cases kept.symm.trans kept'
            exact full ⟨planned, flags⟩
          | built _ _ kept' planned =>
            cases kept.symm.trans kept'
            exact chain planned
        · have same := congrArg Prod.fst (deltaBranch_marks offered chain)
          rcases (deltaBranch_offered fresh f).mp offered with ⟨planned, -⟩ | ⟨planned, -⟩
          · exact absurd ⟨planned, flag.mp (same.symm.trans set)⟩ full
          · exact absurd planned chain

/-- **The flag is right** at the end of a run: where it is set with a ready file,
the file is a signed store form. That is so exactly when the run is not
misflagged. -/
theorem signed_iff {fuel : Nat} {w : World} {ending : Ending}
    (run : checkForUpdatesAsync E C args fuel w = some ending) :
    (∀ f, ending.world.prefs.deltaSignature = true → ending.world.prefs.readyFilename = some f →
      ∃ ds, fetched E fuel = some ds ∧ HoldsSigned E ds f ending.world.files) ↔
    ∀ latest ds, getNewestFullBuild E = .ok latest → fetched E fuel = some ds →
      ¬ Misflagged E C args latest ds (searched E latest ds w) := by
  rcases checkForUpdatesAsync_cases run with ⟨state, failed, rfl⟩ | ⟨latest, ds, newest, chain, rfl⟩
  · constructor
    · intro _ latest ds newest
      exact nomatch failed.symm.trans newest
    · intro _ f _ ready
      rw [settle_ready, Exit.offered, World.offered_of_error] at ready
      · cases ready
      · exact getNewestFullBuild_error failed
  · have branches := branch_signed_iff E C args latest ds (w := searched E latest ds w) (searched_sound ds w)
      (searchPastWork_ready ..) ((searched_flag ds w).trans (by rw [searched_files]))
    rw [Exit.FlagsSigned] at branches
    constructor
    · intro signed latest' ds' newest' chain'
      cases newest.symm.trans newest'
      cases chain.symm.trans chain'
      refine branches.mp fun f set offered => ?_
      obtain ⟨ds', some, holds⟩ := signed f ((settle_flag offered).trans set) ((settle_ready _).trans offered)
      cases chain.symm.trans some
      rw [settle_files] at holds
      exact holds
    · intro right f set ready
      rw [settle_ready] at ready
      rw [settle_flag ready] at set
      refine ⟨ds, chain, ?_⟩
      rw [settle_files]
      exact branches.mpr (right latest ds newest chain) f set ready

/-! ## A build with a signature, and one without -/

/-- The result of a signed chain is a signed form. -/
theorem signed_signed : ∃ ending,
    checkForUpdatesAsync (signedServer "omni-b.zip").env .calm ⟨true, autoDownloadFull⟩ 2 currentWorld = some ending ∧
      ending.world.prefs.deltaSignature = true ∧
      ending.world.prefs.readyFilename = some "/sd/OpenDelta/omni-b.zip" ∧
      ∀ latest ds, getNewestFullBuild (signedServer "omni-b.zip").env = .ok latest →
        fetched (signedServer "omni-b.zip").env 2 = some ds →
        ¬ Misflagged (signedServer "omni-b.zip").env .calm ⟨true, autoDownloadFull⟩ latest ds
          (searched (signedServer "omni-b.zip").env latest ds currentWorld) := by
  have run := checkForUpdatesAsync_eq .calm ⟨true, autoDownloadFull⟩ signedServer_newest
    signedServer_fetched currentWorld
  generalize ended : settle _ _ _ _ = ending at run
  have ready : ending.world.prefs.readyFilename = some "/sd/OpenDelta/omni-b.zip" := by
    rw [← ended]
    decide
  refine ⟨ending, run, ?_, ready, (signed_iff run).mp fun f _ some => ?_⟩
  · rw [← ended]
    decide
  · cases ready.symm.trans some
    refine ⟨_, signedServer_fetched, [7], ?_, signedDelta "omni-b.zip", List.mem_singleton_self _, ?_, ?_⟩
    · rw [← ended]
      decide
    · decide
    · decide

/-- Without signatures the result of a chain is the store form, and is flagged all
the same. -/
theorem signed_store : ∃ ending,
    checkForUpdatesAsync currentServer.env .calm ⟨true, autoDownloadFull⟩ 2 currentWorld = some ending ∧
      ¬ ∀ f, ending.world.prefs.deltaSignature = true → ending.world.prefs.readyFilename = some f →
        ∃ ds, fetched currentServer.env 2 = some ds ∧ HoldsSigned currentServer.env ds f ending.world.files := by
  have run := checkForUpdatesAsync_eq .calm ⟨true, autoDownloadFull⟩ currentServer_newest
    currentServer_fetched currentWorld
  refine ⟨_, run, fun signed => ?_⟩
  obtain ⟨ds, chain, bytes, read, d, member, -, same⟩ := signed "/sd/OpenDelta/omni-b.zip" (by decide)
    (by decide)
  cases currentServer_fetched.symm.trans chain
  cases List.mem_singleton.mp member
  have content : bytes = [3] := Option.some.inj (read.symm.trans (by decide))
  rw [content] at same
  exact absurd same (by decide)

end OpenDelta.Service
