import OpenDelta.Service.Documents

/-!
# The newest build

Which runs leave the newest full build ready. The deltas and the list of builds
are published independently, and a chain is built whenever no full ZIP has to be
downloaded, whatever build it leads to.
-/

namespace OpenDelta.Service

variable {E : Env} {C : Conditions} {args : Args}

/-- A ready file is the newest full build of the run. -/
def OffersNewest (E : Env) (ending : Ending) : Prop :=
  ∀ f, ending.world.prefs.readyFilename = some f →
    ∃ latest, getNewestFullBuild E = .ok latest ∧ f = latestFullPath E latest

theorem OffersChain.flashFilename {latest : String} {ds : List DeltaInfo} {w : World} {plan : Plan}
    (offers : OffersChain E C args latest ds w plan) :
    plan.flashFilename = E.config.getPathBase ++ plan.last.out.name := by
  cases offers
  rfl

/-- **A run offers the newest build** unless it builds a chain that leads to
another one. -/
theorem offersNewest_iff {fuel : Nat} {w : World} {ending : Ending}
    (run : checkForUpdatesAsync E C args fuel w = some ending) :
    OffersNewest E ending ↔
      ∀ latest ds plan, getNewestFullBuild E = .ok latest → fetched E fuel = some ds →
        OffersChain E C args latest ds (searched E latest ds w) plan → plan.last.out.name = latest := by
  constructor
  · intro newest latest ds plan found chain offers
    have ready := (ready_iff run plan.flashFilename).mpr ⟨latest, ds, found, chain, .inr ⟨plan, offers, rfl⟩⟩
    obtain ⟨latest', found', same⟩ := newest _ ready
    cases found.symm.trans found'
    rw [offers.flashFilename, latestFullPath] at same
    exact (String.append_right_inj _).mp same
  · intro leads f ready
    obtain ⟨latest, ds, found, chain, ⟨-, eq⟩ | ⟨plan, offers, eq⟩⟩ := (ready_iff run f).mp ready
    · exact ⟨latest, found, eq⟩
    · refine ⟨latest, found, ?_⟩
      rw [eq, offers.flashFilename, leads latest ds plan found chain offers, latestFullPath]

/-! ## Two servers -/

/-- A run on a server whose chain leads to its newest build. -/
theorem offersNewest_current : ∃ ending,
    checkForUpdatesAsync currentServer.env .calm ⟨true, autoDownloadFull⟩ 2 currentWorld = some ending ∧
      ending.world.prefs.readyFilename = some "/sd/OpenDelta/omni-b.zip" ∧ OffersNewest currentServer.env ending := by
  have run := checkForUpdatesAsync_eq .calm ⟨true, autoDownloadFull⟩ currentServer_newest
    currentServer_fetched currentWorld
  refine ⟨_, run, by decide, (offersNewest_iff run).mpr ?_⟩
  intro latest ds plan newest chain offers
  cases currentServer_newest.symm.trans newest
  cases currentServer_fetched.symm.trans chain
  cases offers with
  | planned first rest kept _ =>
    have all : keptDeltas currentServer.env (searched currentServer.env "omni-b.zip" [sampleDelta] currentWorld).files
        "omni-b.zip" [sampleDelta] = [sampleDelta] := by decide
    cases all.symm.trans kept
    decide

/-- A server whose builds go on to `omni-c` where the chain ends at `omni-b`. -/
def outrunServer : Published :=
  sampleServer [("d/omni-a.delta", sampleDelta)] ["omni-b.zip", "omni-c.zip"]
    [("u/omni-a.update", [2]), ("f/omni-c.zip.md5sum", ascii "ec7f7e7bb43742ce868145f71d37b53c  omni-c.zip".toList)]

/-- The ZIP of `omni-c` is on the storage. -/
def outrunWorld : World := .idle [("/sd/OpenDelta/omni-a.zip", [1]), ("/sd/OpenDelta/omni-c.zip", [4])]

theorem outrunServer_newest : getNewestFullBuild outrunServer.env = .ok "omni-c.zip" :=
  Published.Lists.newest outrunServer ["omni-b.zip", "omni-c.zip"]
    ⟨rfl, rfl, by decide, by decide⟩ (by decide)

set_option maxRecDepth 4000

theorem outrunServer_fetched : fetched outrunServer.env 2 = some [sampleDelta] :=
  Published.fetched_one outrunServer "d/omni-a.delta" sampleDelta (by decide)
    ⟨rfl, by decide, by decide, by decide⟩ ⟨rfl, rfl, rfl, rfl⟩ rfl (by decide)
    (by decide)

/-- A run on that server: `omni-c` verifies and is ready, and then
`omni-b` takes its place. -/
theorem offersNewest_outrun : ∃ ending,
    checkForUpdatesAsync outrunServer.env .calm ⟨true, autoDownloadFull⟩ 2 outrunWorld = some ending ∧
      Event.ready "/sd/OpenDelta/omni-c.zip" (some [4]) ∈ ending.world.trace ∧
      ending.world.prefs.readyFilename = some "/sd/OpenDelta/omni-b.zip" ∧ ¬ OffersNewest outrunServer.env ending := by
  have run := checkForUpdatesAsync_eq .calm ⟨true, autoDownloadFull⟩ outrunServer_newest
    outrunServer_fetched outrunWorld
  generalize ended : settle _ _ _ _ = ending at run
  have ready : ending.world.prefs.readyFilename = some "/sd/OpenDelta/omni-b.zip" := by
    rw [← ended]
    decide
  have before : Event.ready "/sd/OpenDelta/omni-c.zip" (some [4]) ∈ ending.world.trace := by
    rw [← ended]
    decide
  refine ⟨ending, run, before, ready, fun newest => ?_⟩
  obtain ⟨latest, found, same⟩ := newest _ ready
  cases outrunServer_newest.symm.trans found
  exact absurd same (by decide)

end OpenDelta.Service
