import OpenDelta.Service.Documents

/-!
# Forced full downloads

An update entry that is larger than the full ZIP is meant to keep devices from
the delta chain. The plan compares the sum of the missing deltas with the size
of the last build only, so what decides is whether the plan wants the full ZIP.
-/

namespace OpenDelta.Service

variable {E : Env} {C : Conditions} {args : Args} {latest : String}

/-- An entry that asks for the full ZIP: the delta is not on the storage, and
larger than the ZIP it leads to. -/
def AsksForFull (E : Env) (files : FileStore) (d : DeltaInfo) : Prop :=
  d.out.official.size < d.update.update.size ∧ hasUpdate E files d.update = false

/-- Full ZIPs and notices: no delta is downloaded or applied. -/
def Event.isFull (E : Env) (latest : String) : Event → Prop
  | .transfer url file => url = latestFullFetch E latest ∧ file = latestFullPath E latest
  | .downloadFiles => False
  | .applyPatches => False
  | _ => True

theorem Event.isFull_of_notice {e : Event} (notice : e.isNotice) : e.isFull E latest := by
  cases e <;> trivial

/-- The run leaves a chain alone that asks for the full ZIP. -/
def ForcesFull (E : Env) (fuel : Nat) (files : FileStore) (ending : Ending) : Prop :=
  ∀ latest ds, getNewestFullBuild E = .ok latest → fetched E fuel = some ds →
    (∃ d ∈ keptDeltas E files latest ds, AsksForFull E files d) → ∀ e ∈ ending.world.trace, e.isFull E latest

/-- A chain that is built shows in the trace. -/
theorem BuildExit.traced {plan : Plan} {w : World} {exit : Exit} (build : BuildExit E C args plan w exit) :
    .downloadFiles ∈ (complete E C args latest exit).world.trace := by
  have begun : ∀ w', Emits Event.isWork (w.emit .downloadFiles) w' → .downloadFiles ∈ w'.trace :=
    fun w' emits => emits.subset (List.mem_append_right _ (List.mem_singleton_self _))
  cases build with
  | stopped w' _ _ emits => exact begun w' emits
  | crashed w' _ _ emits => exact begun w' emits
  | failed w' _ _ emits => exact begun w' emits
  | stored w' _ _ emits =>
    simp only [complete, finishFull_false, Exit.world, storeResult, World.setReady_trace]
    exact List.mem_append_left _ (begun w' emits)

/-- A branch that starts its chain shows it. -/
theorem StartsChain.traced {plan : Plan} {w : World} (starts : StartsChain E C args latest plan w) :
    .downloadFiles ∈ (complete E C args latest (deltaBranch E C args latest plan w)).world.trace := by
  have flag := (planDelta_planned (E := E) latest plan w).flag.trans starts.unneeded
  have mode := starts.mode
  obtain ⟨freeSpace, readable, enough⟩ := starts.space
  generalize exited : complete E C args latest (deltaBranch E C args latest plan w) = exit
  have branch := exited ▸ deltaBranch_exit E C args latest plan w
  cases branch with
  | checked check => exact absurd mode (by omega)
  | unreadable _ unreadable => exact nomatch readable.symm.trans unreadable
  | crowded _ freeSpace' readable' low =>
    cases readable.symm.trans readable'
    exact absurd (flag ▸ low) enough
  | idle low => exact absurd mode (by omega)
  | built _ _ _ exit build => exact build.traced
  | full _ needed => exact nomatch flag.symm.trans needed

/-- A chain is applied although an entry may ask for the full ZIP: that is on the
storage and verifies, or the deltas that are missing are together no larger than
the ZIP of the last build, which is the one to go to. -/
structure Overruled (E : Env) (C : Conditions) (args : Args) (latest : String) (plan : Plan) (w : World) : Prop where
  mode : autoDownloadCheck < args.checkOnly
  space : EnoughSpace E C plan false w
  full : fullVerified E w.files latest = true ∨
    plan.initialFile.isSome = true ∧ plan.deltaDownloadSize ≤ plan.fullDownloadSize ∧
      (isNewer E latest = true → JavaString.getName plan.flashFilename = latest)

theorem startsChain_iff {plan : Plan} {w : World} :
    StartsChain E C args latest plan w ↔ Overruled E C args latest plan w := by
  have unneeded : (plan.wantsFull E latest && !fullVerified E w.files latest) = false ↔
      fullVerified E w.files latest = true ∨ plan.initialFile.isSome = true ∧
        plan.deltaDownloadSize ≤ plan.fullDownloadSize ∧
        (isNewer E latest = true → JavaString.getName plan.flashFilename = latest) := by
    rw [← Bool.not_eq_true, Bool.and_eq_true, Bool.not_eq_true', Plan.wantsFull_iff, Plan.needsFull, Bool.or_eq_true,
      decide_eq_true_iff, Option.isNone_iff_eq_none]
    cases fullVerified E w.files latest <;> simp [Option.isSome_iff_ne_none, and_assoc]
  constructor
  · exact fun starts => ⟨starts.mode, starts.space, unneeded.mp starts.unneeded⟩
  · exact fun overruled => ⟨overruled.mode, unneeded.mpr overruled.full, overruled.space⟩

/-- **A run that is asked for the full ZIP leaves the chain alone** exactly if no
kept chain with such an entry is applied nevertheless. -/
theorem forcesFull_iff {fuel : Nat} {w : World} {ending : Ending}
    (run : checkForUpdatesAsync E C args fuel w = some ending) (untraced : w.trace = []) :
    ForcesFull E fuel w.files ending ↔
      ∀ latest ds first rest, getNewestFullBuild E = .ok latest → fetched E fuel = some ds →
        keptDeltas E w.files latest ds = first :: rest → (∃ d ∈ first :: rest, AsksForFull E w.files d) →
          ¬ Overruled E C args latest (makePlan E w.files first rest) (searched E latest ds w) := by
  constructor
  · intro forces latest ds first rest newest chain kept asks overruled
    have starts := startsChain_iff.mpr overruled
    rcases checkForUpdatesAsync_cases run with ⟨state, failed, -⟩ | ⟨latest', ds', newest', chain', rfl⟩
    · exact nomatch failed.symm.trans newest
    cases newest.symm.trans newest'
    cases chain.symm.trans chain'
    refine forces latest ds newest chain (kept ▸ asks) .downloadFiles ((settle_emits ..).subset ?_)
    simp only [branch, searched_files, kept]
    exact starts.traced
  · intro leaves latest ds newest chain asks
    rcases checkForUpdatesAsync_cases run with ⟨state, failed, -⟩ | ⟨latest', ds', newest', chain', rfl⟩
    · exact nomatch failed.symm.trans newest
    cases newest.symm.trans newest'
    cases chain.symm.trans chain'
    cases kept : keptDeltas E w.files latest ds with
    | nil =>
      rw [kept] at asks
      obtain ⟨d, member, -⟩ := asks
      cases member
    | cons first rest =>
      rw [kept] at asks
      have spared := leaves latest ds first rest newest chain kept asks
      have handled : Emits (Event.isFull E latest) (searched E latest ds w)
          (complete E C args latest (deltaBranch E C args latest (makePlan E w.files first rest)
            (searched E latest ds w))).world :=
        deltaBranch_emits ⟨rfl, rfl⟩ (fun _ _ => trivial) fun starts => absurd (startsChain_iff.mp starts) spared
      have settled := handled.trans ((settle_emits E C args _).weaken
        fun e notice => Event.isFull_of_notice notice)
      obtain ⟨more, grown, all⟩ := settled.trace
      rw [searched_trace, untraced, List.nil_append] at grown
      simp only [branch, searched_files, kept]
      rw [grown]
      exact all

/-! ## Two edited entries -/

/-- The delta to `omni-b` with an entry that asks for the full ZIP. -/
def editedDelta : DeltaInfo :=
  { sampleDelta with update := { sampleDelta.update with update := ⟨9, "9e688c58a5487b8eaf69c9e1005ad0bf"⟩ } }

/-- A delta from `omni-b` to an `omni-c` that is larger by far. -/
def laterDelta : DeltaInfo where
  version := 1
  input := sampleDelta.out
  update := { name := "omni-b.update", tag := none, update := ⟨1, "9e688c58a5487b8eaf69c9e1005ad0bf"⟩, applied := ⟨9, ""⟩ }
  signature := { name := "omni-b.sign", tag := none, update := ⟨9, ""⟩, applied := ⟨9, ""⟩ }
  out := { name := "omni-c.zip", tag := none, official := ⟨100, ""⟩, store := ⟨9, ""⟩, storeSigned := ⟨8, ""⟩ }
  revoked := false

def editedServer : Published := sampleServer [("d/omni-a.delta", editedDelta)] ["omni-b.zip"] []

def followedServer : Published :=
  sampleServer [("d/omni-a.delta", editedDelta), ("d/omni-b.delta", laterDelta)] ["omni-b.zip", "omni-c.zip"] []

theorem editedServer_newest : getNewestFullBuild editedServer.env = .ok "omni-b.zip" :=
  Published.Lists.newest editedServer ["omni-b.zip"] ⟨rfl, rfl, by decide, by decide⟩
    (by decide)

theorem followedServer_newest : getNewestFullBuild followedServer.env = .ok "omni-c.zip" :=
  Published.Lists.newest followedServer ["omni-b.zip", "omni-c.zip"]
    ⟨rfl, rfl, by decide, by decide⟩ (by decide)

set_option maxRecDepth 4000

theorem editedServer_fetched : fetched editedServer.env 2 = some [editedDelta] :=
  Published.fetched_one editedServer "d/omni-a.delta" editedDelta (by decide)
    ⟨rfl, by decide, by decide, by decide⟩ ⟨rfl, rfl, rfl, rfl⟩ rfl (by decide)
    (by decide)

theorem followedServer_fetched : fetched followedServer.env 3 = some [editedDelta, laterDelta] := by
  have first : Published.Lists followedServer "d/omni-a.delta" editedDelta.document :=
    ⟨rfl, by decide, by decide, by decide⟩
  have second : Published.Lists followedServer "d/omni-b.delta" laterDelta.document :=
    ⟨by decide, by decide, by decide, by decide⟩
  have start : deltaUrl followedServer.env followedServer.env.config.filenameBase = "d/omni-a.delta" := by decide
  have next : deltaUrl followedServer.env (JavaString.replace editedDelta.out.name ".zip" "") = "d/omni-b.delta" := by
    decide
  unfold fetched
  rw [start]
  refine fetchDeltas_cons (Published.fetchDelta_eq first ⟨rfl, rfl, rfl, rfl⟩) ?_
  rw [show deltaUrl followedServer.env (JavaString.replace ({ editedDelta with revoked := false } : DeltaInfo).out.name
    ".zip" "") = "d/omni-b.delta" from next]
  refine fetchDeltas_cons (Published.fetchDelta_eq second ⟨rfl, rfl, rfl, rfl⟩) ?_
  exact fetchDeltas_nil (Published.fetchDelta_none (by decide) (by decide))

/-- The entry of a single delta forces the full ZIP. -/
theorem forcesFull_edited : ∃ ending,
    checkForUpdatesAsync editedServer.env .calm ⟨true, autoDownloadFull⟩ 2 currentWorld = some ending ∧
      ForcesFull editedServer.env 2 currentWorld.files ending := by
  have run := checkForUpdatesAsync_eq .calm ⟨true, autoDownloadFull⟩ editedServer_newest
    editedServer_fetched currentWorld
  have kept : keptDeltas editedServer.env currentWorld.files "omni-b.zip" [editedDelta] = [editedDelta] := by
    decide
  refine ⟨_, run, (forcesFull_iff run rfl).mpr ?_⟩
  intro latest ds first rest newest chain kept' asks overruled
  cases editedServer_newest.symm.trans newest
  cases editedServer_fetched.symm.trans chain
  cases kept.symm.trans kept'
  rcases overruled.full with verified | ⟨-, small, -⟩
  · exact absurd verified (by decide)
  · exact absurd small (by decide)

/-- Followed by the delta to a larger build it does not. -/
theorem forcesFull_followed : ∃ ending,
    checkForUpdatesAsync followedServer.env .calm ⟨true, autoDownloadFull⟩ 3 currentWorld = some ending ∧
      AsksForFull followedServer.env currentWorld.files editedDelta ∧
      ¬ ForcesFull followedServer.env 3 currentWorld.files ending := by
  have run := checkForUpdatesAsync_eq .calm ⟨true, autoDownloadFull⟩ followedServer_newest
    followedServer_fetched currentWorld
  generalize ended : settle _ _ _ _ = ending at run
  have asks : AsksForFull followedServer.env currentWorld.files editedDelta := ⟨by decide, by decide⟩
  have kept : keptDeltas followedServer.env currentWorld.files "omni-c.zip" [editedDelta, laterDelta] =
      [editedDelta, laterDelta] := by decide
  refine ⟨ending, run, asks, fun forces => ?_⟩
  refine forces _ _ followedServer_newest followedServer_fetched ?_ .downloadFiles ?_
  · rw [kept]
    exact ⟨_, List.mem_cons_self .., asks⟩
  · rw [← ended]
    decide

end OpenDelta.Service
