import OpenDelta.Service.Documents

/-!
# Revoked builds

Which runs leave the ZIP of a revoked delta ready. The result of a chain never
is one; the newest full build is offered whether or not a fetched delta that
leads to it is revoked.
-/

namespace OpenDelta.Service

variable {E : Env} {C : Conditions} {args : Args}

/-- The ready file is none that a fetched revoked delta leads to. -/
def OffersUnrevoked (E : Env) (fuel : Nat) (ending : Ending) : Prop :=
  ∀ ds, fetched E fuel = some ds → ∀ d ∈ ds, d.revoked = true →
    ending.world.prefs.readyFilename ≠ some (E.config.getPathBase ++ d.out.name)

/-- The last delta of a plan is a fetched one that is not revoked. -/
theorem OffersChain.last {latest : String} {ds : List DeltaInfo} {w : World} {plan : Plan}
    (offers : OffersChain E C args latest ds w plan) :
    ∃ last ∈ ds, last.revoked = false ∧ plan.last.out = last.out ∧
      plan.flashFilename = E.config.getPathBase ++ last.out.name := by
  cases offers with
  | planned first rest kept _ =>
    obtain ⟨last, isLast, -, same⟩ := makePlan_last E w.files first rest
    rw [← kept] at isLast
    have out := DeltaInfo.out_of_untagged same
    refine ⟨last, (keptDeltas_sublist ..).subset (List.mem_of_getLast? isLast), keptDeltas_last isLast, out, ?_⟩
    rw [← out]
    rfl

/-- The result of a chain is no revoked build. -/
theorem OffersChain.unrevoked {fuel : Nat} {latest : String} {ds : List DeltaInfo} {w : World} {plan : Plan}
    (offers : OffersChain E C args latest ds w plan) (chain : fetched E fuel = some ds) {d : DeltaInfo}
    (member : d ∈ ds) (revoked : d.revoked = true) : plan.flashFilename ≠ E.config.getPathBase ++ d.out.name := by
  intro same
  obtain ⟨last, inside, unrevoked, -, path⟩ := offers.last
  have name : last.out.name = d.out.name := (String.append_right_inj _).mp (path.symm.trans same)
  obtain rfl := eq_of_name (fetched_pairwise chain) inside member name
  exact nomatch unrevoked.symm.trans revoked

/-- **A run offers no revoked build** unless it offers the newest full build and
a revoked delta leads to that. -/
theorem offersUnrevoked_iff {fuel : Nat} {w : World} {ending : Ending}
    (run : checkForUpdatesAsync E C args fuel w = some ending) :
    OffersUnrevoked E fuel ending ↔
      ∀ latest ds, getNewestFullBuild E = .ok latest → fetched E fuel = some ds →
        OffersFull E C args latest ds (searched E latest ds w) →
          ∀ d ∈ ds, d.revoked = true → d.out.name ≠ latest := by
  constructor
  · intro unrevoked latest ds newest chain full d member revoked same
    apply unrevoked ds chain d member revoked
    rw [same]
    exact (ready_iff run _).mpr ⟨latest, ds, newest, chain, .inl ⟨full, rfl⟩⟩
  · intro spares ds chain d member revoked ready
    obtain ⟨latest, ds', newest, chain', either⟩ := (ready_iff run _).mp ready
    cases chain.symm.trans chain'
    rcases either with ⟨full, eq⟩ | ⟨plan, offers, eq⟩
    · exact spares latest ds newest chain full d member revoked ((String.append_right_inj _).mp eq)
    · exact offers.unrevoked chain member revoked eq.symm

/-! ## Two revoked deltas -/

/-- The delta to `omni-b` is revoked, and `omni-b` is followed by `omni-c`. -/
def replacedServer : Published :=
  sampleServer [("d/omni-a.delta_revoked", sampleDelta)] ["omni-b.zip", "omni-c.zip"] []

/-- The delta to `omni-b` is revoked, and `omni-b` is still the newest build. -/
def revokedServer : Published := sampleServer [("d/omni-a.delta_revoked", sampleDelta)] ["omni-b.zip"] []

/-- A ZIP of `omni-b` is left over from an earlier run. -/
def leftoverWorld : World := .idle [("/sd/OpenDelta/omni-b.zip", [3])]

theorem replacedServer_newest : getNewestFullBuild replacedServer.env = .ok "omni-c.zip" :=
  Published.Lists.newest replacedServer ["omni-b.zip", "omni-c.zip"]
    ⟨rfl, rfl, by decide, by decide⟩ (by decide)

theorem revokedServer_newest : getNewestFullBuild revokedServer.env = .ok "omni-b.zip" :=
  Published.Lists.newest revokedServer ["omni-b.zip"]
    ⟨rfl, rfl, by decide, by decide⟩ (by decide)

set_option maxRecDepth 4000

theorem replacedServer_fetched : fetched replacedServer.env 2 = some [{ sampleDelta with revoked := true }] :=
  Published.fetched_revoked replacedServer "d/omni-a.delta" sampleDelta (by decide) (by decide)
    ⟨by decide, by decide, by decide, by decide⟩ ⟨rfl, rfl, rfl, rfl⟩
    (by decide) (by decide)

theorem revokedServer_fetched : fetched revokedServer.env 2 = some [{ sampleDelta with revoked := true }] :=
  Published.fetched_revoked revokedServer "d/omni-a.delta" sampleDelta (by decide) (by decide)
    ⟨by decide, by decide, by decide, by decide⟩ ⟨rfl, rfl, rfl, rfl⟩
    (by decide) (by decide)

/-- With a newer build the left-over ZIP is passed over. -/
theorem offersUnrevoked_replaced : ∃ ending,
    checkForUpdatesAsync replacedServer.env .calm ⟨false, autoDownloadCheck⟩ 2 leftoverWorld = some ending ∧
      OffersUnrevoked replacedServer.env 2 ending := by
  have run := checkForUpdatesAsync_eq .calm ⟨false, autoDownloadCheck⟩ replacedServer_newest
    replacedServer_fetched leftoverWorld
  refine ⟨_, run, (offersUnrevoked_iff run).mpr ?_⟩
  intro latest ds newest chain _ d member _
  cases replacedServer_newest.symm.trans newest
  cases replacedServer_fetched.symm.trans chain
  cases List.mem_singleton.mp member
  decide

/-- Without one it is offered for flashing, by a mere check. -/
theorem offersUnrevoked_leftover : ∃ ending,
    checkForUpdatesAsync revokedServer.env .calm ⟨false, autoDownloadCheck⟩ 2 leftoverWorld = some ending ∧
      ending.world.prefs.readyFilename = some "/sd/OpenDelta/omni-b.zip" ∧
      ¬ OffersUnrevoked revokedServer.env 2 ending := by
  have run := checkForUpdatesAsync_eq .calm ⟨false, autoDownloadCheck⟩ revokedServer_newest
    revokedServer_fetched leftoverWorld
  generalize ended : settle _ _ _ _ = ending at run
  have ready : ending.world.prefs.readyFilename = some "/sd/OpenDelta/omni-b.zip" := by
    rw [← ended]
    decide
  refine ⟨ending, run, ready, fun unrevoked => ?_⟩
  refine unrevoked _ revokedServer_fetched _ (List.mem_singleton_self _) rfl (ready.trans ?_)
  decide

end OpenDelta.Service
