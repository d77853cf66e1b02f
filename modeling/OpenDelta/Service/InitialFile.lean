import OpenDelta.Service.ForcedFull
import OpenDelta.Service.Newest

/-!
# The source of a chain

That a chain has an initial file follows only from the full ZIP not being
wanted. A full ZIP that verifies takes that back: the chain is started although
`findInitialFile` has found nothing.
-/

namespace OpenDelta.Service

variable {E : Env} {C : Conditions} {args : Args} {latest : String}

/-! ## Runs that come to a chain -/

/-- The run starts the chain of this plan. -/
inductive RunsChain (E : Env) (C : Conditions) (args : Args) (fuel : Nat) (w : World) : Plan → Prop
  | started {latest : String} {ds : List DeltaInfo} {first : DeltaInfo} {rest : List DeltaInfo}
      (newest : getNewestFullBuild E = .ok latest) (chain : fetched E fuel = some ds)
      (kept : keptDeltas E w.files latest ds = first :: rest)
      (starts : StartsChain E C args latest (makePlan E w.files first rest) (searched E latest ds w)) :
      RunsChain E C args fuel w (makePlan E w.files first rest)

/-- The run has come to `downloadFiles` or to `applyPatches`. -/
def Ending.InChain (ending : Ending) : Prop :=
  .downloadFiles ∈ ending.world.trace ∨ .applyPatches ∈ ending.world.trace

variable (E latest) in
theorem not_inChain {ending : Ending} (full : ∀ e ∈ ending.world.trace, e.isFull E latest) : ¬ ending.InChain := by
  rintro (downloads | applies)
  · exact full _ downloads
  · exact full _ applies

/-- A branch that starts no chain leaves deltas alone. -/
theorem branch_spared {ds : List DeltaInfo} {w : World} (sound : w.state.isErrorState = false)
    (idle : ∀ first rest, keptDeltas E w.files latest ds = first :: rest →
      ¬ StartsChain E C args latest (makePlan E w.files first rest) w) :
    Emits (Event.isFull E latest) w (complete E C args latest (branch E C args latest ds w)).world := by
  unfold branch
  cases kept : keptDeltas E w.files latest ds with
  | nil => exact fullBranch_emits ⟨rfl, rfl⟩ (fun _ _ => trivial) sound fun _ _ => trivial
  | cons first rest =>
    exact deltaBranch_emits ⟨rfl, rfl⟩ (fun _ _ => trivial) fun starts => absurd starts (idle first rest kept)

/-- **A run comes to its chain** exactly if it starts one. -/
theorem inChain_iff {fuel : Nat} {w : World} {ending : Ending}
    (run : checkForUpdatesAsync E C args fuel w = some ending) (untraced : w.trace = []) :
    ending.InChain ↔ ∃ plan, RunsChain E C args fuel w plan := by
  rcases checkForUpdatesAsync_cases run with ⟨state, failed, rfl⟩ | ⟨latest, ds, newest, chain, rfl⟩
  · refine iff_of_false (not_inChain E "" ?_) ?_
    · obtain ⟨more, grown, notices⟩ := (settle_emits E C args
        (.returned ((start (w.updateState .checking)).updateState state))).trace
      intro e member
      have begun : (Exit.returned ((start (w.updateState .checking)).updateState state)).world.trace = [] := untraced
      rw [grown, begun] at member
      exact Event.isFull_of_notice (notices e member)
    · rintro ⟨_, ⟨newest, -, -, -⟩⟩
      cases failed.symm.trans newest
  · constructor
    · intro comes
      by_contra none
      have spared : Emits (Event.isFull E latest) (searched E latest ds w)
          (complete E C args latest (branch E C args latest ds (searched E latest ds w))).world := by
        refine branch_spared (searched_sound ds w) fun first rest kept starts => none ?_
        rw [searched_files] at kept starts
        exact ⟨_, .started newest chain kept starts⟩
      obtain ⟨more, grown, all⟩ := (spared.trans ((settle_emits E C args _).weaken
        fun _ notice => Event.isFull_of_notice notice)).trace
      rw [searched_trace, untraced, List.nil_append] at grown
      refine not_inChain E latest ?_ comes
      rw [grown]
      exact all
    · rintro ⟨_, ⟨newest', chain', kept, starts⟩⟩
      cases newest.symm.trans newest'
      cases chain.symm.trans chain'
      refine .inl ((settle_emits ..).subset ?_)
      simp only [branch, searched_files, kept]
      exact starts.traced

/-! ## The initial file -/

/-- A run that comes to its chain has found a file to apply it to. -/
def HasSource (E : Env) (fuel : Nat) (files : FileStore) (ending : Ending) : Prop :=
  ending.InChain → ∃ latest ds first rest file, getNewestFullBuild E = .ok latest ∧ fetched E fuel = some ds ∧
    keptDeltas E files latest ds = first :: rest ∧
    (findInitialFile E files first (makePlan E files first rest).flashFilename).1 = some file

/-- The chain is started without a file to apply it to: the full ZIP on the
storage verifies, so that it is not downloaded again. -/
structure Sourceless (E : Env) (C : Conditions) (args : Args) (latest : String) (plan : Plan) (w : World) : Prop where
  missing : plan.initialFile = none
  verified : fullVerified E w.files latest = true
  mode : autoDownloadCheck < args.checkOnly
  space : EnoughSpace E C plan false w

theorem sourceless_iff {plan : Plan} {w : World} :
    Sourceless E C args latest plan w ↔ plan.initialFile = none ∧ StartsChain E C args latest plan w := by
  rw [startsChain_iff]
  constructor
  · exact fun ⟨missing, verified, mode, space⟩ => ⟨missing, mode, space, .inl verified⟩
  · rintro ⟨missing, mode, space, verified | ⟨found, -, -⟩⟩
    · exact ⟨missing, verified, mode, space⟩
    · rw [missing] at found
      cases found

/-- **A chain has a source** in every run but those that keep one without it
while the full ZIP verifies. -/
theorem hasSource_iff {fuel : Nat} {w : World} {ending : Ending}
    (run : checkForUpdatesAsync E C args fuel w = some ending) (untraced : w.trace = []) :
    HasSource E fuel w.files ending ↔
      ∀ latest ds first rest, getNewestFullBuild E = .ok latest → fetched E fuel = some ds →
        keptDeltas E w.files latest ds = first :: rest →
          ¬ Sourceless E C args latest (makePlan E w.files first rest) (searched E latest ds w) := by
  constructor
  · intro source latest ds first rest newest chain kept sourceless
    obtain ⟨missing, starts⟩ := sourceless_iff.mp sourceless
    obtain ⟨latest', ds', first', rest', file, newest', chain', kept', found⟩ :=
      source ((inChain_iff run untraced).mpr ⟨_, .started newest chain kept starts⟩)
    cases newest.symm.trans newest'
    cases chain.symm.trans chain'
    cases kept.symm.trans kept'
    exact nomatch missing.symm.trans found
  · intro spared comes
    obtain ⟨plan, runs⟩ := (inChain_iff run untraced).mp comes
    cases runs with
    | @started latest ds first rest newest chain kept starts =>
      cases source : (makePlan E w.files first rest).initialFile with
      | none => exact absurd (sourceless_iff.mpr ⟨source, starts⟩) (spared latest ds first rest newest chain kept)
      | some file => exact ⟨latest, ds, first, rest, file, newest, chain, kept, source⟩

/-- With the ZIP of the current build on the storage the chain has a source. -/
theorem hasSource_current : ∃ ending,
    checkForUpdatesAsync currentServer.env .calm ⟨true, autoDownloadFull⟩ 2 currentWorld = some ending ∧
      ending.InChain ∧ HasSource currentServer.env 2 currentWorld.files ending := by
  have run := checkForUpdatesAsync_eq .calm ⟨true, autoDownloadFull⟩ currentServer_newest
    currentServer_fetched currentWorld
  generalize ended : settle _ _ _ _ = ending at run
  have comes : Event.downloadFiles ∈ ending.world.trace := by
    rw [← ended]
    decide
  refine ⟨ending, run, .inl comes, (hasSource_iff run rfl).mpr ?_⟩
  intro latest ds first rest newest chain kept sourceless
  cases currentServer_newest.symm.trans newest
  cases currentServer_fetched.symm.trans chain
  have all : keptDeltas currentServer.env currentWorld.files "omni-b.zip" [sampleDelta] = [sampleDelta] := by decide
  cases all.symm.trans kept
  exact absurd sourceless.missing (by decide)

/-- The ZIP of `omni-c` is on the storage, that of the current build is not. -/
def sourcelessWorld : World := .idle [("/sd/OpenDelta/omni-c.zip", [4])]

/-- The chain to `omni-b` is started without a source, and the process ends. -/
theorem hasSource_outrun : ∃ ending,
    checkForUpdatesAsync outrunServer.env .calm ⟨true, autoDownloadFull⟩ 2 sourcelessWorld = some ending ∧
      (∃ w, ending = .aborted w) ∧ ¬ HasSource outrunServer.env 2 sourcelessWorld.files ending := by
  have run := checkForUpdatesAsync_eq .calm ⟨true, autoDownloadFull⟩ outrunServer_newest
    outrunServer_fetched sourcelessWorld
  refine ⟨_, run, ⟨_, rfl⟩, fun source => ?_⟩
  have kept : keptDeltas outrunServer.env sourcelessWorld.files "omni-c.zip" [sampleDelta] = [sampleDelta] := by decide
  refine (hasSource_iff run rfl).mp source _ _ _ _ outrunServer_newest outrunServer_fetched kept ⟨?_, ?_, ?_, ?_⟩
  · decide
  · decide
  · decide
  · exact ⟨100000000, rfl, by decide⟩

end OpenDelta.Service
