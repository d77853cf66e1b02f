import OpenDelta.Service.Documents

/-!
# What a check advertises

A check and a later run with downloads, over the same server and storage. The
names the check stores are a promise about what the later run leaves ready; the
plan of a delta chain keeps it only under a condition on the plan.
-/

namespace OpenDelta.Service

variable {E : Env} {C : Conditions} {args : Args} {latest : String}

/-! ## The check -/

/-- Where a check ends. -/
def checkedWorld (E : Env) (latest : String) (ds : List DeltaInfo) (w : World) : World :=
  match keptDeltas E w.files latest ds with
  | [] =>
    match findReusable E w.files latest ds with
    | some found => w.setReady (E.config.getPathBase ++ found.1.out.name)
    | none => (planFull E latest w).2
  | first :: rest => (planDelta E latest (makePlan E w.files first rest) w).2

theorem branch_checked (mode : args.checkOnly = autoDownloadCheck) (ds : List DeltaInfo) (w : World) :
    complete E C args latest (branch E C args latest ds w) = .returned (checkedWorld E latest ds w) := by
  unfold branch checkedWorld
  cases keptDeltas E w.files latest ds with
  | nil =>
    cases findReusable E w.files latest ds with
    | none => simp only [Option.map_none, fullBranch, if_pos mode, complete]
    | some found => rfl
  | cons first rest => simp only [deltaBranch, if_pos mode, complete]

variable (E latest) in
theorem checkedWorld_sound {w : World} (sound : w.state.isErrorState = false) (ds : List DeltaInfo) :
    (checkedWorld E latest ds w).state.isErrorState = false := by
  unfold checkedWorld
  split
  · split
    · exact sound
    · exact (planFull_planned _ _ sound).sound
  · exact (planDelta_planned latest _ w).sound

theorem checkedWorld_files {w : World} (sound : w.state.isErrorState = false) (ds : List DeltaInfo) :
    (checkedWorld E latest ds w).files = w.files := by
  unfold checkedWorld
  split
  · split
    · rfl
    · exact (planFull_planned _ _ sound).files
  · exact (planDelta_planned latest _ w).files

variable (E latest) in
theorem planFull_names (w : World) :
    (planFull E latest w).2.prefs.latestFullName = (if isNewer E latest then w.prefs.latestFullName else none) ∧
      (planFull E latest w).2.prefs.latestDeltaName = w.prefs.latestDeltaName := by
  have names := takeFullBuild_names E latest (isNewer E latest)
    (w.setPrefs (namesFull (isNewer E latest) w.prefs))
  unfold planFull
  simp only
  split <;> exact names

variable (E latest) in
theorem planDelta_names (plan : Plan) (w : World) :
    (planDelta E latest plan w).2.prefs.latestFullName = (plan.names E latest w.prefs).latestFullName ∧
      (planDelta E latest plan w).2.prefs.latestDeltaName = (plan.names E latest w.prefs).latestDeltaName := by
  have names := takeFullBuild_names E latest (plan.wantsFull E latest)
    (((w.updateState .checking).updateState .searching).setPrefs (plan.names E latest w.prefs))
  unfold planDelta
  simp only
  split
  · split
    · exact names
    · split <;> exact names
  · exact names

/-! ## The run that follows -/

/-- A full ZIP that is wanted and arrives ends up ready. -/
theorem finishFull_received {w : World} (mode : args.checkOnly = autoDownloadFull)
    (network : ∀ n, C.networkState n = true) (fresh : w.prefs.readyFilename = none)
    (received : FullReceived E C args latest w) :
    (finishFull E C args latest true w).offered = some (latestFullPath E latest) ∧
      .transfer (latestFullFetch E latest) (latestFullPath E latest) ∈ (finishFull E C args latest true w).trace := by
  have download : FullDownload E C args latest w := ⟨mode, by rw [network, Bool.or_true], received⟩
  exact ⟨(finishFull_offered fresh _).mpr ⟨download, rfl⟩, finishFull_traced download⟩


/-- The network is up, there is space enough, and the downloads and patches the
run asks for go through. -/
structure Smooth (E : Env) (C : Conditions) (args : Args) (latest : String) (ds : List DeltaInfo) (w : World) : Prop where
  network : ∀ n, C.networkState n = true
  space : ∀ first rest, keptDeltas E w.files latest ds = first :: rest → ∀ full,
    EnoughSpace E C (makePlan E w.files first rest) full w
  single : keptDeltas E w.files latest ds = [] → (planFull E latest w).1 = true →
    FullReceived E C args latest (planFull E latest w).2
  full : ∀ first rest, keptDeltas E w.files latest ds = first :: rest →
    (planDelta E latest (makePlan E w.files first rest) w).1 = true →
      FullReceived E C args latest (planWorld E latest (makePlan E w.files first rest) w)
  chain : ∀ first rest, keptDeltas E w.files latest ds = first :: rest →
    (planDelta E latest (makePlan E w.files first rest) w).1 = false →
      Built E C args (makePlan E w.files first rest) (planWorld E latest (makePlan E w.files first rest) w)

/-- The second run does what preferences advertise. -/
structure KeepsPromise (E : Env) (p : Prefs) (ending : Ending) : Prop where
  nothing : p.readyFilename = none → p.latestFullName = none → p.latestDeltaName = none →
    ending.world.prefs.readyFilename = none ∧ ∀ e ∈ ending.world.trace, e.isNotice
  delta : ∀ n, p.latestDeltaName = some n →
    ending.world.prefs.readyFilename = some (E.config.getPathBase ++ n) ∧ .applyPatches ∈ ending.world.trace
  full : ∀ n, p.latestDeltaName = none → p.latestFullName = some n → p.readyFilename = none →
    ending.world.prefs.readyFilename = some (latestFullPath E n) ∧
      .transfer (latestFullFetch E n) (latestFullPath E n) ∈ ending.world.trace

/-- What the plan advertises is what it does: with a newer build, a chain that is
taken for an update leads to it, and without one, a full ZIP is wanted and
already on the storage. -/
def Plan.Honest (plan : Plan) (E : Env) (latest : String) (files : FileStore) : Prop :=
  (isNewer E latest = true ∧
      (plan.needsFull = false → JavaString.getName plan.flashFilename = latest → plan.last.out.name = latest)) ∨
    (isNewer E latest = false ∧ plan.needsFull = true ∧ fullVerified E files latest = true)

/-- The `finally` block adds notices to the world a run ends in. -/
theorem settle_trace {exit : Exit} {e : Event} (member : e ∈ exit.world.trace) :
    e ∈ (settle E C args exit).world.trace := (settle_emits _ _ _ exit).subset member

/-- A world in which the branches start: nothing is ready, and the newest build
is noted down. -/
structure Fresh (latest : String) (w : World) : Prop where
  sound : w.state.isErrorState = false
  ready : w.prefs.readyFilename = none
  full : w.prefs.latestFullName = some latest
  delta : w.prefs.latestDeltaName = none

variable {ds : List DeltaInfo}

variable (E latest ds) in
theorem searched_fresh (w : World) : Fresh latest (searched E latest ds w) := by
  refine ⟨searchPastWork_sound rfl ds, searchPastWork_ready .., ?_, ?_⟩
  · simp only [searched, searchPastWork]
    split <;> simp [startFor]
  · simp only [searched, searchPastWork]
    split <;> simp [startFor, Prefs.clearState]

/-- The names a check leaves are those of a world. -/
structure Shows (p : Prefs) (w : World) : Prop where
  ready : p.readyFilename = w.prefs.readyFilename
  full : p.latestFullName = w.prefs.latestFullName
  delta : p.latestDeltaName = w.prefs.latestDeltaName

/-- A run that ends in a world without a trace adds notices to it. -/
theorem settle_notices {exit : Exit} (untraced : exit.world.trace = []) :
    ∀ e ∈ (settle E C args exit).world.trace, e.isNotice := by
  obtain ⟨more, grown, all⟩ := (settle_emits E C args exit).trace
  rw [grown, untraced, List.nil_append]
  exact all

/-- A promise of a file that is ready already is none. -/
theorem KeepsPromise.of_ready {p : Prefs} {f : String} {ending : Ending} (ready : p.readyFilename = some f)
    (delta : p.latestDeltaName = none) : KeepsPromise E p ending where
  nothing := fun absent => nomatch ready.symm.trans absent
  delta := fun _ some => nomatch delta.symm.trans some
  full := fun _ _ _ absent => nomatch ready.symm.trans absent

/-- Nothing promised, nothing done. -/
theorem KeepsPromise.of_nothing {p : Prefs} {ending : Ending} (full : p.latestFullName = none)
    (delta : p.latestDeltaName = none) (ready : ending.world.prefs.readyFilename = none)
    (notices : ∀ e ∈ ending.world.trace, e.isNotice) : KeepsPromise E p ending where
  nothing := fun _ _ _ => ⟨ready, notices⟩
  delta := fun _ some => nomatch delta.symm.trans some
  full := fun _ _ some => nomatch full.symm.trans some

/-- The result of a chain is promised and built. -/
theorem KeepsPromise.of_delta {p : Prefs} {n : String} {ending : Ending} (delta : p.latestDeltaName = some n)
    (ready : ending.world.prefs.readyFilename = some (E.config.getPathBase ++ n))
    (patched : .applyPatches ∈ ending.world.trace) : KeepsPromise E p ending where
  nothing := fun _ _ absent => nomatch delta.symm.trans absent
  delta := by
    intro n' some
    cases delta.symm.trans some
    exact ⟨ready, patched⟩
  full := fun _ absent => nomatch delta.symm.trans absent

/-- The full build is promised and downloaded. -/
theorem KeepsPromise.of_full {p : Prefs} {w : World} (full : p.latestFullName = some latest)
    (delta : p.latestDeltaName = none) (mode : args.checkOnly = autoDownloadFull)
    (network : ∀ n, C.networkState n = true) (fresh : w.prefs.readyFilename = none)
    (received : FullReceived E C args latest w) :
    KeepsPromise E p (settle E C args (.returned (finishFull E C args latest true w))) := by
  obtain ⟨offered, traced⟩ := finishFull_received mode network fresh received
  refine ⟨fun _ absent => (nomatch full.symm.trans absent), fun _ some => (nomatch delta.symm.trans some), ?_⟩
  intro n _ some _
  cases full.symm.trans some
  exact ⟨(settle_ready _).trans offered, (settle_emits ..).subset traced⟩

variable {w₁ w₂ : World} {p : Prefs}

/-- Without deltas the promise is kept. -/
theorem keepsPromise_single (fresh₁ : Fresh latest w₁) (fresh₂ : Fresh latest w₂) (files : w₂.files = w₁.files)
    (untraced : w₂.trace = []) (mode : args.checkOnly = autoDownloadFull)
    (kept : keptDeltas E w₁.files latest ds = []) (smooth : Smooth E C args latest ds w₂)
    (shows : Shows p (checkedWorld E latest ds w₁)) :
    KeepsPromise E p (settle E C args (complete E C args latest (branch E C args latest ds w₂))) := by
  have kept₂ : keptDeltas E w₂.files latest ds = [] := by rw [files, kept]
  cases reuse : findReusable E w₁.files latest ds with
  | some found =>
    have checked : checkedWorld E latest ds w₁ = w₁.setReady (E.config.getPathBase ++ found.1.out.name) := by
      simp only [checkedWorld, kept, reuse]
    rw [checked] at shows
    exact .of_ready shows.ready (shows.delta.trans fresh₁.delta)
  | none =>
    have checked : checkedWorld E latest ds w₁ = (planFull E latest w₁).2 := by
      simp only [checkedWorld, kept, reuse]
    have planned₁ := planFull_planned E latest fresh₁.sound
    have planned₂ := planFull_planned E latest fresh₂.sound
    have names := planFull_names E latest w₁
    rw [checked] at shows
    have delta : p.latestDeltaName = none := by rw [shows.delta, names.2, fresh₁.delta]
    have full := shows.full.trans names.1
    have ready := shows.ready.trans planned₁.ready
    rw [fresh₁.full] at full
    have ran : branch E C args latest ds w₂ = .continued (planFull E latest w₂).1 (planFull E latest w₂).2 := by
      simp only [branch, kept₂, files ▸ reuse, Option.map_none, fullBranch]
      rw [if_neg (by rw [mode]; decide)]
    rw [ran, complete]
    by_cases found : (isNewer E latest && fullVerified E w₁.files latest) = true
    · rw [if_pos found] at ready
      exact .of_ready ready delta
    have unready : (planFull E latest w₂).2.prefs.readyFilename = none := by
      rw [planned₂.ready, files, if_neg found, fresh₂.ready]
    cases newer : isNewer E latest with
    | false =>
      rw [newer, if_neg Bool.false_ne_true] at full
      rw [planned₂.flag, newer, Bool.false_and, finishFull_false]
      refine .of_nothing full delta ?_ (settle_notices ?_)
      · rw [settle_ready, Exit.offered, World.offered_of_sound planned₂.sound, unready]
      · rw [Exit.world, planned₂.trace, files, if_neg found, untraced, List.append_nil]
    | true =>
      rw [newer, if_pos rfl] at full
      have flag : (planFull E latest w₂).1 = true := by
        rw [newer, Bool.true_and, Bool.not_eq_true] at found
        rw [planned₂.flag, files, newer, found]
        rfl
      rw [flag]
      exact .of_full full delta mode smooth.network unready (smooth.single kept₂ flag)

/-! ## Plans -/

theorem Plan.honest_iff {plan : Plan} {files : FileStore} : plan.Honest E latest files ↔
    (plan.updateAvailable E latest = true ∧ (plan.deltaUpdatePossible E latest = true → plan.last.out.name = latest)) ∨
      (plan.updateAvailable E latest = false ∧ plan.wantsFull E latest = true ∧ fullVerified E files latest = true) := by
  unfold Honest
  rw [updateAvailable_eq, deltaUpdatePossible_iff, wantsFull_iff]
  cases isNewer E latest <;> simp

theorem Plan.wantsFull_of_possible {plan : Plan} (possible : plan.deltaUpdatePossible E latest = true) :
    plan.wantsFull E latest = false := by
  obtain ⟨unneeded, -, name⟩ := deltaUpdatePossible_iff.mp possible
  rw [← Bool.not_eq_true, wantsFull_iff, unneeded]
  simp [name]

theorem Plan.wantsFull_of_available {plan : Plan} (available : plan.updateAvailable E latest = true)
    (impossible : plan.deltaUpdatePossible E latest = false) : plan.wantsFull E latest = true := by
  rw [updateAvailable, impossible, Bool.or_false] at available
  rw [wantsFull, impossible, available, Bool.not_false, Bool.and_true, Bool.or_true]

variable (E C args latest) in
/-- A plan that goes through: the result of the chain is ready, and it was
patched. -/
theorem deltaBranch_built (plan : Plan) {w : World} (mode : autoDownloadCheck < args.checkOnly)
    (fresh : w.prefs.readyFilename = none) (space : EnoughSpace E C plan false w)
    (unneeded : (planDelta E latest plan w).1 = false) (built : Built E C args plan (planWorld E latest plan w)) :
    (complete E C args latest (deltaBranch E C args latest plan w)).offered = some plan.flashFilename ∧
      .applyPatches ∈ (complete E C args latest (deltaBranch E C args latest plan w)).world.trace := by
  have flag := (planDelta_planned (E := E) latest plan w).flag
  refine ⟨(deltaBranch_offered fresh _).mpr (.inr ⟨⟨⟨mode, flag.symm.trans unneeded, space⟩, built⟩, rfl⟩), ?_⟩
  generalize exited : complete E C args latest (deltaBranch E C args latest plan w) = exit
  have branch := exited ▸ deltaBranch_exit E C args latest plan w
  obtain ⟨freeSpace, readable, enough⟩ := space
  cases branch with
  | checked check => exact absurd mode (by omega)
  | unreadable _ unreadable => cases readable.symm.trans unreadable
  | crowded _ freeSpace' readable' low =>
    cases readable.symm.trans readable'
    exact absurd (unneeded ▸ low) enough
  | idle low => exact absurd mode (by omega)
  | built _ _ _ exit build =>
    cases build with
    | stopped _ broken => exact absurd broken built.not_broken
    | crashed _ broken => exact absurd broken built.not_broken
    | failed _ unbuilt => exact absurd built unbuilt
    | stored w' _ _ _ _ patched =>
      simp only [complete, finishFull_false, Exit.world, storeResult, World.setReady_trace]
      exact List.mem_append_left _ patched
  | full _ needed => cases unneeded.symm.trans needed

/-- A full ZIP that is still wanted is left to the full download. -/
theorem deltaBranch_full {plan : Plan} {w : World} (mode : args.checkOnly ≠ autoDownloadCheck)
    (space : EnoughSpace E C plan true w) (needed : (planDelta E latest plan w).1 = true) :
    complete E C args latest (deltaBranch E C args latest plan w) =
      .returned (finishFull E C args latest true (planWorld E latest plan w)) := by
  obtain ⟨freeSpace, readable, enough⟩ := space
  have spaceReads := (planDelta_planned (E := E) latest plan w).spaceReads
  simp only [deltaBranch]
  rw [if_neg mode, spaceReads, readable]
  simp only
  rw [needed, if_neg enough, if_neg (by simp)]
  rfl

/-- With deltas the promise is kept exactly by an honest plan. -/
theorem keepsPromise_plan (first : DeltaInfo) (rest : List DeltaInfo) (fresh₁ : Fresh latest w₁)
    (fresh₂ : Fresh latest w₂) (files : w₂.files = w₁.files) (mode : args.checkOnly = autoDownloadFull)
    (kept : keptDeltas E w₁.files latest ds = first :: rest) (smooth : Smooth E C args latest ds w₂)
    (shows : Shows p (checkedWorld E latest ds w₁)) :
    KeepsPromise E p (settle E C args (complete E C args latest (branch E C args latest ds w₂))) ↔
      (makePlan E w₁.files first rest).Honest E latest w₁.files := by
  have checked : checkedWorld E latest ds w₁ =
      (planDelta E latest (makePlan E w₁.files first rest) w₁).2 := by
    simp only [checkedWorld, kept]
  have ran : branch E C args latest ds w₂ =
      deltaBranch E C args latest (makePlan E w₁.files first rest) w₂ := by
    simp only [branch, files, kept]
  have space := smooth.space first rest (files ▸ kept)
  have full := smooth.full first rest (files ▸ kept)
  have chain := smooth.chain first rest (files ▸ kept)
  rw [files] at space full chain
  have path : (makePlan E w₁.files first rest).flashFilename =
    E.config.getPathBase ++ (makePlan E w₁.files first rest).last.out.name := rfl
  rw [checked] at shows
  rw [ran, Plan.honest_iff]
  generalize makePlan E w₁.files first rest = plan at *
  have planned₁ := planDelta_planned (E := E) latest plan w₁
  have planned₂ := planDelta_planned (E := E) latest plan w₂
  have names := planDelta_names E latest plan w₁
  have named : p.latestFullName = if plan.updateAvailable E latest then some latest else none := by
    rw [shows.full, names.1, Plan.names, fresh₁.full]
  have unnamed : p.latestDeltaName =
      if plan.updateAvailable E latest && !plan.wantsFull E latest then some (JavaString.getName plan.flashFilename) else none :=
    shows.delta.trans names.2
  have ready := shows.ready.trans planned₁.ready
  have flag := planned₂.flag
  rw [fresh₁.ready] at ready
  rw [files] at flag
  have unready : (plan.wantsFull E latest && fullVerified E w₁.files latest) = false →
      (planWorld E latest plan w₂).prefs.readyFilename = none := by
    intro missing
    refine Eq.trans (b := (planDelta E latest plan w₂).2.prefs.readyFilename) rfl ?_
    rw [planned₂.ready, files, missing, if_neg Bool.false_ne_true, fresh₂.ready]
  have builds := deltaBranch_built E C args latest plan
    (by rw [mode]; decide) fresh₂.ready (space false)
  cases found : (plan.wantsFull E latest && fullVerified E w₁.files latest) with
  | true =>
    -- The full ZIP is ready after the check.
    rw [found, if_pos rfl] at ready
    rw [Bool.and_eq_true] at found
    rw [found.1, Bool.not_true, Bool.and_false, if_neg Bool.false_ne_true] at unnamed
    refine iff_of_true (.of_ready ready unnamed) ?_
    cases available : plan.updateAvailable E latest with
    | false => exact .inr ⟨rfl, found⟩
    | true => exact .inl ⟨rfl, fun possible => nomatch found.1.symm.trans (Plan.wantsFull_of_possible possible)⟩
  | false =>
    rw [found, if_neg Bool.false_ne_true] at ready
    cases wants : plan.wantsFull E latest with
    | true =>
      -- The full ZIP is downloaded.
      rw [wants, Bool.true_and] at found
      have needed : (planDelta E latest plan w₂).1 = true := by rw [flag, wants, found]; rfl
      rw [deltaBranch_full (by rw [mode]; decide) (space true) needed]
      rw [wants, Bool.not_true, Bool.and_false, if_neg Bool.false_ne_true] at unnamed
      have fresh := unready (by rw [wants, found]; rfl)
      cases available : plan.updateAvailable E latest with
      | true =>
        rw [available, if_pos rfl] at named
        refine iff_of_true (.of_full named unnamed mode smooth.network fresh (full needed)) (.inl ⟨rfl, ?_⟩)
        exact fun possible => nomatch wants.symm.trans (Plan.wantsFull_of_possible possible)
      | false =>
        rw [available, if_neg Bool.false_ne_true] at named
        refine iff_of_false (fun keeps => ?_) ?_
        · have offered := (finishFull_received mode smooth.network fresh (full needed)).1
          exact nomatch ((keeps.nothing ready named unnamed).1.symm.trans (settle_ready _)).trans offered
        · rintro (⟨⟨⟩, -⟩ | ⟨-, -, verified⟩)
          exact nomatch found.symm.trans verified
    | false =>
      -- The chain is built.
      have unneeded : (planDelta E latest plan w₂).1 = false := by rw [flag, wants]; rfl
      obtain ⟨offered, patched⟩ := builds unneeded (chain unneeded)
      cases available : plan.updateAvailable E latest with
      | true =>
        have possible : plan.deltaUpdatePossible E latest = true := by
          cases possible : plan.deltaUpdatePossible E latest with
          | true => rfl
          | false => exact nomatch wants.symm.trans (Plan.wantsFull_of_available available possible)
        have name := (Plan.deltaUpdatePossible_iff.mp possible).2.2
        rw [available, wants, name] at unnamed
        constructor
        · intro keeps
          have promised := ((keeps.delta latest unnamed).1.symm.trans (settle_ready _)).trans offered
          rw [path, Option.some.injEq, String.append_right_inj] at promised
          exact .inl ⟨rfl, fun _ => promised.symm⟩
        · rintro (⟨-, leads⟩ | ⟨⟨⟩, -⟩)
          apply KeepsPromise.of_delta unnamed _ (settle_trace patched)
          rw [settle_ready, offered, path, leads possible]
      | false =>
        rw [available, if_neg Bool.false_ne_true] at named
        rw [available, Bool.false_and, if_neg Bool.false_ne_true] at unnamed
        refine iff_of_false (fun keeps => ?_) ?_
        · exact nomatch ((keeps.nothing ready named unnamed).1.symm.trans (settle_ready _)).trans offered
        · rintro (⟨⟨⟩, -⟩ | ⟨-, ⟨⟩, -⟩)

/-! ## Two runs -/

/-- A check leaves the storage alone. -/
theorem check_files {fuel : Nat} {w : World} {ending : Ending} (check : args.checkOnly = autoDownloadCheck)
    (run : checkForUpdatesAsync E C args fuel w = some ending) : ending.world.files = w.files := by
  rcases checkForUpdatesAsync_cases run with ⟨state, -, rfl⟩ | ⟨latest, ds, -, -, rfl⟩
  · rw [settle, conclude_world, runFinally_files]
    rfl
  · rw [branch_checked check, settle, conclude_world, runFinally_files,
      checkedWorld_files (searched_fresh _ _ _ w).sound, searched_files]

/-- **A build run does what a check advertises** exactly if the plan for the
deltas the check keeps is honest. -/
theorem keepsPromise_iff {C₁ C₂ : Conditions} {args₁ args₂ : Args} {fuel : Nat} {ending₁ ending₂ : Ending}
    (check : args₁.checkOnly = autoDownloadCheck) (build : args₂.checkOnly = autoDownloadFull)
    (run₁ : checkForUpdatesAsync E C₁ args₁ fuel w₁ = some ending₁)
    (run₂ : checkForUpdatesAsync E C₂ args₂ fuel w₂ = some ending₂)
    (storage : w₂.files = ending₁.world.files) (untraced : w₂.trace = [])
    (smooth : ∀ latest ds, getNewestFullBuild E = .ok latest → fetched E fuel = some ds →
      Smooth E C₂ args₂ latest ds (searched E latest ds w₂)) :
    KeepsPromise E ending₁.world.prefs ending₂ ↔
      ∀ latest ds first rest, getNewestFullBuild E = .ok latest → fetched E fuel = some ds →
        keptDeltas E w₁.files latest ds = first :: rest →
          (makePlan E w₁.files first rest).Honest E latest w₁.files := by
  have storage' := storage.trans (check_files check run₁)
  rcases checkForUpdatesAsync_cases run₁ with ⟨state, failed, rfl⟩ | ⟨latest, ds, newest, chain, rfl⟩
  · -- Neither run finds a newest build.
    have error := getNewestFullBuild_error failed
    refine iff_of_true ?_ ?_
    swap
    · intro latest _ _ _ newest
      cases failed.symm.trans newest
    rcases checkForUpdatesAsync_cases run₂ with ⟨state', failed', rfl⟩ | ⟨latest, _, newest, -⟩
    · have cleared := runFinally_prefs E C₁ args₁
        ((start (w₁.updateState .checking)).updateState state)
      rw [World.updateState_state, if_pos error] at cleared
      refine .of_nothing ?_ ?_ ?_ (settle_notices untraced)
      · rw [settle, conclude_world, cleared]
        rfl
      · rw [settle, conclude_world, cleared]
        rfl
      · rw [settle_ready, Exit.offered, World.offered_of_error (getNewestFullBuild_error failed')]
    · cases failed.symm.trans newest
  · rcases checkForUpdatesAsync_cases run₂ with ⟨state, failed, -⟩ | ⟨latest', ds', newest', chain', rfl⟩
    · cases failed.symm.trans newest
    cases newest.symm.trans newest'
    cases chain.symm.trans chain'
    have fresh₁ := searched_fresh E latest ds w₁
    have fresh₂ := searched_fresh E latest ds w₂
    have sound := checkedWorld_sound E latest fresh₁.sound ds
    have prefs := runFinally_prefs E C₁ args₁
      (checkedWorld E latest ds (searched E latest ds w₁))
    rw [if_neg (by rw [sound]; exact Bool.false_ne_true)] at prefs
    rw [branch_checked check, settle, conclude_world]
    have files : (searched E latest ds w₂).files = (searched E latest ds w₁).files := by
      rw [searched_files, searched_files, storage']
    have shows : Shows (runFinally E C₁ args₁ (checkedWorld E latest ds (searched E latest ds w₁))).2.prefs
        (checkedWorld E latest ds (searched E latest ds w₁)) := by
      rw [prefs]
      exact ⟨rfl, rfl, rfl⟩
    have steady := smooth latest ds newest chain
    cases kept : keptDeltas E w₁.files latest ds with
    | nil =>
      refine iff_of_true ?_ ?_
      · exact keepsPromise_single fresh₁ fresh₂ files ((searched_trace ds w₂).trans untraced) build
          (by rw [searched_files, kept]) steady shows
      · intro latest' ds' first rest newest' chain' some
        cases newest.symm.trans newest'
        cases chain.symm.trans chain'
        cases kept.symm.trans some
    | cons first rest =>
      have plan := keepsPromise_plan first rest fresh₁ fresh₂ files build
        (by rw [searched_files, kept]) steady shows
      rw [searched_files] at plan
      rw [plan]
      refine ⟨fun honest latest' ds' first' rest' newest' chain' some => ?_, fun honest => ?_⟩
      · cases newest.symm.trans newest'
        cases chain.symm.trans chain'
        cases kept.symm.trans some
        exact honest
      · exact honest latest ds first rest newest chain kept

/-- The chain of a delta that is kept, and the plan for it, in a calm world. -/
theorem Smooth.of_chain {ds : List DeltaInfo} {w : World} (first : DeltaInfo) (rest : List DeltaInfo)
    (kept : keptDeltas E w.files latest ds = first :: rest)
    (unneeded : (planDelta E latest (makePlan E w.files first rest) w).1 = false)
    (space : ∀ full, EnoughSpace E .calm (makePlan E w.files first rest) full w)
    (built : Built E .calm args (makePlan E w.files first rest)
      (planWorld E latest (makePlan E w.files first rest) w)) : Smooth E .calm args latest ds w where
  network _ := rfl
  space first' rest' kept' := by
    cases kept.symm.trans kept'
    exact space
  single empty := nomatch kept.symm.trans empty
  full first' rest' kept' needed := by
    cases kept.symm.trans kept'
    exact nomatch unneeded.symm.trans needed
  chain first' rest' kept' _ := by
    cases kept.symm.trans kept'
    exact built

/-- A check that advertises `omni-b`, and the run that builds it. -/
theorem keepsPromise_current : ∃ ending₁ ending₂,
    checkForUpdatesAsync currentServer.env .calm ⟨false, autoDownloadCheck⟩ 2 currentWorld = some ending₁ ∧
      checkForUpdatesAsync currentServer.env .calm ⟨true, autoDownloadFull⟩ 2
        { ending₁.world with trace := [] } = some ending₂ ∧
      ending₁.world.prefs.latestDeltaName = some "omni-b.zip" ∧
      KeepsPromise currentServer.env ending₁.world.prefs ending₂ := by
  have run₁ := checkForUpdatesAsync_eq .calm ⟨false, autoDownloadCheck⟩ currentServer_newest
    currentServer_fetched currentWorld
  have kept : keptDeltas currentServer.env currentWorld.files "omni-b.zip" [sampleDelta] = [sampleDelta] := by
    decide
  refine ⟨_, _, run₁, checkForUpdatesAsync_eq _ _ currentServer_newest currentServer_fetched _, by decide, ?_⟩
  refine (keepsPromise_iff rfl rfl run₁ (checkForUpdatesAsync_eq _ _ currentServer_newest currentServer_fetched _) rfl
    rfl ?_).mpr ?_
  · intro latest ds newest chain
    cases currentServer_newest.symm.trans newest
    cases currentServer_fetched.symm.trans chain
    refine Smooth.of_chain sampleDelta [] (by decide) (by decide) ?_ ?_
    · intro full
      cases full with
      | false => exact ⟨_, rfl, by decide⟩
      | true => exact ⟨_, rfl, by decide⟩
    · exact ⟨by decide, by decide, by decide⟩
  · intro latest ds first rest newest chain some
    cases currentServer_newest.symm.trans newest
    cases currentServer_fetched.symm.trans chain
    cases kept.symm.trans some
    exact .inl (by decide)

/-- A server whose list of builds stays at `omni-a` where its deltas go on. -/
def strayServer : Published :=
  sampleServer [("d/omni-a.delta", sampleDelta)] ["omni-a.zip"] [("u/omni-a.update", [2])]

theorem strayServer_newest : getNewestFullBuild strayServer.env = .ok "omni-a.zip" :=
  Published.Lists.newest strayServer ["omni-a.zip"] ⟨rfl, rfl, by decide, by decide⟩
    (by decide)

set_option maxRecDepth 4000

theorem strayServer_fetched : fetched strayServer.env 2 = some [sampleDelta] :=
  Published.fetched_one strayServer "d/omni-a.delta" sampleDelta (by decide)
    ⟨rfl, by decide, by decide, by decide⟩ ⟨rfl, rfl, rfl, rfl⟩ rfl (by decide)
    (by decide)

/-- A check that advertises nothing, and the run that builds `omni-b`. -/
theorem keepsPromise_stray : ∃ ending₁ ending₂,
    checkForUpdatesAsync strayServer.env .calm ⟨false, autoDownloadCheck⟩ 2 currentWorld = some ending₁ ∧
      checkForUpdatesAsync strayServer.env .calm ⟨true, autoDownloadFull⟩ 2
        { ending₁.world with trace := [] } = some ending₂ ∧
      ending₁.world.prefs.latestFullName = none ∧ ending₁.world.prefs.latestDeltaName = none ∧
      ending₁.world.prefs.readyFilename = none ∧
      ending₂.world.prefs.readyFilename = some "/sd/OpenDelta/omni-b.zip" ∧
      ¬ KeepsPromise strayServer.env ending₁.world.prefs ending₂ := by
  have run₁ := checkForUpdatesAsync_eq .calm ⟨false, autoDownloadCheck⟩ strayServer_newest
    strayServer_fetched currentWorld
  generalize ended₁ : settle _ _ _ _ = ending₁ at run₁
  have run₂ := checkForUpdatesAsync_eq .calm ⟨true, autoDownloadFull⟩ strayServer_newest
    strayServer_fetched { ending₁.world with trace := [] }
  generalize ended₂ : settle _ _ _ _ = ending₂ at run₂
  have names : ending₁.world.prefs.latestFullName = none ∧ ending₁.world.prefs.latestDeltaName = none ∧
      ending₁.world.prefs.readyFilename = none := by
    rw [← ended₁]
    decide
  have ready : ending₂.world.prefs.readyFilename = some "/sd/OpenDelta/omni-b.zip" := by
    rw [← ended₂, ← ended₁]
    decide
  obtain ⟨full, delta, unready⟩ := names
  refine ⟨ending₁, ending₂, run₁, run₂, full, delta, unready, ready, fun keeps => ?_⟩
  exact nomatch (keeps.nothing unready full delta).1.symm.trans ready

end OpenDelta.Service
