import OpenDelta.Flash.Recovery
import OpenDelta.Service.SignedFlag

/-!
# Secure mode

A run that leaves a ready file, and `flashUpdate` in secure mode: the recovery
installs that file and nothing else. It verifies the file where the run has noted
down that it is a signed one.
-/

namespace OpenDelta.Flash
open Service JavaString TextLines

variable {F : Surroundings} {c : Config}

/-! ## Writing -/

theorem writeStrings_ok {lines : List String} {text : String} {n : Nat}
    (ok : (writeStrings F lines text n).1 = true) : (writeStrings F lines text n).2.1 = some (text ++ unlines lines) := by
  induction lines generalizing text n with
  | nil => simp [writeStrings, unlines]
  | cons s rest ih =>
    rw [writeStrings] at ok ⊢
    split at ok
    · rw [if_pos ‹_›, ih ok, unlines]
      simp only [String.append_assoc]
    · cases ok

/-- A file that is written without an exception holds its lines. -/
theorem writeFile_ok {lines : List String} {old : Option String} {n : Nat}
    (ok : (writeFile F lines old n).1 = true) : (writeFile F lines old n).2.1 = some (unlines lines) := by
  rw [writeFile] at ok ⊢
  split at ok
  · rw [if_pos ‹_›, writeStrings_ok ok, String.empty_append]
  · cases ok

/-- What the scripts are in secure mode, when they are all written. -/
theorem writeScripts_secure {prefs : Prefs} {deltaSignature : Bool} {file : String} {extras : List String}
    {cache : CacheRecovery} (secure : c.getSecureModeCurrent prefs = true)
    (ok : (writeScripts F c prefs deltaSignature file extras cache).1 = true) :
    (writeScripts F c prefs deltaSignature file extras cache).2.openrecoveryscript =
        some (unlines (openrecoveryscript deltaSignature true file [])) ∧
      (writeScripts F c prefs deltaSignature file extras cache).2.extendedcommand = none ∧
      (deltaSignature = true → (writeScripts F c prefs deltaSignature file extras cache).2.keys =
        some (c.getInjectSignatureKeys ++ "\n")) := by
  have injects := Config.getInjectSignatureEnable_of_secure secure
  have extrasIgnored : openrecoveryscript deltaSignature true file extras =
      openrecoveryscript deltaSignature true file [] := by
    simp only [openrecoveryscript, if_true]
  simp only [writeScripts, injects, secure, Bool.true_and, extrasIgnored, if_true] at ok ⊢
  generalize written : (if deltaSignature = true then writeFile F [c.getInjectSignatureKeys] cache.keys 0
    else (true, cache.keys, 0)) = keys at ok ⊢
  split at ok
  · rename_i keysOk
    rw [if_pos keysOk]
    split at ok
    · rename_i scriptOk
      rw [if_pos scriptOk]
      refine ⟨writeFile_ok scriptOk, rfl, fun signed => ?_⟩
      rw [if_pos signed] at written
      rw [← written] at keysOk ⊢
      refine (writeFile_ok keysOk).trans ?_
      simp [unlines]
    · cases ok
  · cases ok

/-! ## Ready files -/

variable {E : Env} {C : Conditions} {args : Args} {fuel : Nat} {w : World} {ending : Ending}

/-- Ready files lie in the path base. -/
theorem ready_path (run : checkForUpdatesAsync E C args fuel w = some ending) {f : String}
    (ready : ending.world.prefs.readyFilename = some f) : startsWith f E.config.getPathBase = true := by
  obtain ⟨latest, ds, -, -, ⟨-, rfl⟩ | ⟨plan, ⟨first, rest, -, -⟩, rfl⟩⟩ := (ready_iff run f).mp ready
  · exact startsWith_append ..
  · exact startsWith_append ..

theorem pathBase_pathSd (c : Config) {f : String} (starts : startsWith f c.getPathBase = true) :
    startsWith f (pathSd c) = true := by
  rw [← append_substringAfter starts, Config.getPathBase, String.append_assoc, String.append_assoc, ← pathSd]
  exact startsWith_append ..

/-- What the files in `/cache/recovery` lead to: the recovery installs `f` and
nothing else, when `signed` after verifying it against the injected keys. -/
structure InstallsOnly (c : Config) (f : String) (signed : Bool) (cache : CacheRecovery) : Prop where
  openrecoveryscript : ∃ file script, pathSd c ++ file = f ∧ cache.openrecoveryscript = some script ∧
    ∀ r : Recovery, r.files "/cache/recovery/keys" = cache.keys →
      (r.execute script).installs = r.installs ++
        [{ file
           verified := signed
           keys := if signed then some (c.getInjectSignatureKeys ++ "\n") else r.files "/res/keys" }]
  extendedcommand : cache.extendedcommand = none

/-- A `flashUpdate` that comes to the reboot has written its scripts. -/
theorem flashUpdate_rebooted {before : World} {cache : CacheRecovery} {f : String}
    (ready : before.prefs.readyFilename = some f) (starts : startsWith f c.getPathBase = true)
    (rebooted : (flashUpdate F c before cache).rebooted = true) :
    ∃ extras, (writeScripts F c before.prefs.clearState before.prefs.deltaSignature (substringAfter f (pathSd c)) extras
        cache).1 = true ∧
      (flashUpdate F c before cache).cache = (writeScripts F c before.prefs.clearState before.prefs.deltaSignature
        (substringAfter f (pathSd c)) extras cache).2 := by
  simp only [flashUpdate, ready] at rebooted ⊢
  by_cases permitted : (F.accessCacheFilesystem && F.reboot) = true
  · rw [if_pos permitted, if_pos starts] at rebooted ⊢
    exact ⟨_, rebooted, rfl⟩
  · rw [if_neg permitted] at rebooted
    cases rebooted

/-! ## `PREF_DELTA_SIGNATURE` -/

/-- A ready file that is not noted down as signed is the full build. -/
theorem unsigned_full (run : checkForUpdatesAsync E C args fuel w = some ending) {f : String}
    (ready : ending.world.prefs.readyFilename = some f) (unsigned : ending.world.prefs.deltaSignature = false) :
    ∃ latest ds, getNewestFullBuild E = .ok latest ∧ fetched E fuel = some ds ∧
      OffersFull E C args latest ds (searched E latest ds w) ∧ f = latestFullPath E latest := by
  obtain ⟨latest, ds, newest, chain, full | ⟨_, ⟨first, rest, kept, planned⟩, -⟩⟩ := (ready_iff run f).mp ready
  · exact ⟨latest, ds, newest, chain, full⟩
  · exfalso
    cases (checkForUpdatesAsync_eq _ _ newest chain w).symm.trans run
    rw [settle_ready] at ready
    rw [settle_flag ready] at unsigned
    simp only [branch, kept] at unsigned
    exact nomatch unsigned.symm.trans planned.flag

/-- A build whose name goes on with a command on a line of its own. -/
def splitName : String := "omni-b\ninstall x.zip"

/-- A server without deltas. -/
def fullServer : Published :=
  { sampleServer [] ["omni-b.zip"]
      [("f/omni-b.zip.md5sum", ascii "ec7f7e7bb43742ce868145f71d37b53c  omni-b.zip".toList)] with
    config := securedConfig }

def fullWorld : World := .idle [("/sd/OpenDelta/omni-b.zip", [4])]

/-- There is an additional ZIP, and the first `n` writes go through. -/
def surroundings (n : Nat) : Surroundings where
  accessCacheFilesystem := true
  reboot := true
  listFiles := some ["/sd/OpenDelta/FlashAfterUpdate/extra.zip"]
  succeeds m := decide (m < n)

theorem splitServer_newest : getNewestFullBuild (signedServer splitName).env = .ok splitName :=
  Published.Lists.newest (signedServer splitName) [splitName]
    ⟨rfl, rfl, by decide, by decide⟩ (by decide)

set_option maxRecDepth 4000

theorem splitServer_fetched : fetched (signedServer splitName).env 2 = some [signedDelta splitName] :=
  Published.fetched_one (signedServer splitName) "d/omni-a.delta" (signedDelta splitName) (by decide)
    ⟨rfl, by decide, by decide, by decide⟩ ⟨rfl, rfl, rfl, rfl⟩ rfl (by decide)
    (by decide)

theorem fullServer_newest : getNewestFullBuild fullServer.env = .ok "omni-b.zip" :=
  Published.Lists.newest fullServer ["omni-b.zip"] ⟨rfl, rfl, by decide, by decide⟩
    (by decide)

theorem fullServer_fetched : fetched fullServer.env 1 = some [] :=
  fetchDeltas_nil (Published.fetchDelta_none (by decide) (by decide))

/-- What the README says of a run and a `flashUpdate` in secure mode. -/
def Secures (E : Env) (fuel : Nat) (w : World) (F : Surroundings) (cache : CacheRecovery) : Prop :=
  ∀ ending f, checkForUpdatesAsync E .calm ⟨true, autoDownloadFull⟩ fuel w = some ending →
    ending.world.prefs.readyFilename = some f → E.config.getSecureModeCurrent ending.world.prefs = true →
      InstallsOnly E.config f true (flashUpdate F E.config ending.world cache).cache

/-- The installations of a recovery whose keys do not matter. -/
def installed (cache : CacheRecovery) : List Install :=
  (Recovery.execute ⟨fun file => if file = "/cache/recovery/keys" then cache.keys else none, false, []⟩
    (cache.openrecoveryscript.getD "")).installs

/-- Where a verified ZIP is all that is installed, it shows. -/
theorem InstallsOnly.installed {f : String} {cache : CacheRecovery} (only : InstallsOnly c f true cache) :
    (installed cache).map (·.verified) = [true] := by
  obtain ⟨file, script, -, is, installs⟩ := only.openrecoveryscript
  rw [Flash.installed, is, Option.getD_some, installs _ (by simp)]
  rfl

end OpenDelta.Flash
