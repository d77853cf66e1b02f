import OpenDelta.Flash.FlashUpdate
import OpenDelta.Service.Documents

/-!
# Giving up

`flashUpdate` clears the preferences and deletes the initial file before it writes
anything. What is lost when it gives up is not restored, so a call without a
reboot keeps the state only where there is none, or where it stops at once.
-/

namespace OpenDelta.Flash
open Service JavaString

variable {F : Surroundings} {c : Config} {w : World}

/-! ## File operations that go through -/

/-- The file operations from one number up to another go through. -/
def GoThrough (F : Surroundings) (n m : Nat) : Prop := ∀ k, n ≤ k → k < m → F.succeeds k = true

theorem goThrough_self (F : Surroundings) (n : Nat) : GoThrough F n n := by
  intro k after before
  omega

theorem goThrough_trans {n m l : Nat} (first : n ≤ m) (second : m ≤ l) :
    GoThrough F n l ↔ GoThrough F n m ∧ GoThrough F m l := by
  constructor
  · intro all
    exact ⟨fun k after before => all k after (by omega), fun k after before => all k (by omega) before⟩
  · intro both k after before
    by_cases early : k < m
    · exact both.1 k after early
    · exact both.2 k (by omega) before

theorem goThrough_succ (n m : Nat) :
    GoThrough F n (n + (m + 1)) ↔ F.succeeds n = true ∧ GoThrough F (n + 1) (n + 1 + m) := by
  rw [show n + (m + 1) = n + 1 + m by omega, goThrough_trans (m := n + 1) (by omega) (by omega)]
  refine and_congr_left fun _ => ⟨fun one => one n (by omega) (by omega), ?_⟩
  intro succeeds k after before
  obtain rfl : k = n := by omega
  exact succeeds

/-- The lines are written exactly if each write goes through. -/
theorem writeStrings_iff (lines : List String) (text : String) (n : Nat) :
    (writeStrings F lines text n).1 = true ↔ GoThrough F n (n + lines.length) := by
  induction lines generalizing text n with
  | nil => exact iff_of_true rfl (goThrough_self F n)
  | cons s rest ih =>
    rw [List.length_cons, goThrough_succ, writeStrings]
    by_cases succeeds : F.succeeds n = true
    · rw [if_pos succeeds, ih]
      exact (and_iff_right succeeds).symm
    · rw [if_neg succeeds]
      exact iff_of_false Bool.false_ne_true fun both => succeeds both.1

theorem writeStrings_next {lines : List String} {text : String} {n : Nat}
    (ok : (writeStrings F lines text n).1 = true) : (writeStrings F lines text n).2.2 = n + lines.length := by
  induction lines generalizing text n with
  | nil => rfl
  | cons s rest ih =>
    rw [writeStrings] at ok ⊢
    split at ok
    · rw [if_pos ‹_›, ih ok, List.length_cons]
      omega
    · cases ok

/-- The operations on a file: it is opened, then written line by line. -/
def fileOperations (lines : List String) : Nat := lines.length + 1

theorem writeFile_iff (lines : List String) (old : Option String) (n : Nat) :
    (writeFile F lines old n).1 = true ↔ GoThrough F n (n + fileOperations lines) := by
  rw [fileOperations, goThrough_succ, writeFile]
  by_cases succeeds : F.succeeds n = true
  · rw [if_pos succeeds, writeStrings_iff]
    exact (and_iff_right succeeds).symm
  · rw [if_neg succeeds]
    exact iff_of_false Bool.false_ne_true fun both => succeeds both.1

theorem writeFile_next {lines : List String} {old : Option String} {n : Nat}
    (ok : (writeFile F lines old n).1 = true) : (writeFile F lines old n).2.2 = n + fileOperations lines := by
  rw [writeFile] at ok ⊢
  split at ok
  · rw [if_pos ‹_›, writeStrings_next ok, fileOperations]
    omega
  · cases ok

/-- The operations on all files in `/cache/recovery`. -/
def scriptOperations (c : Config) (prefs : Prefs) (deltaSignature : Bool) (flashFilename : String)
    (extras : List String) : Nat :=
  let injects := c.getInjectSignatureEnable prefs && deltaSignature
  let secure := c.getSecureModeCurrent prefs
  (if injects then fileOperations [c.getInjectSignatureKeys] else 0) +
    fileOperations (openrecoveryscript injects secure flashFilename extras) +
    if secure then 0 else fileOperations (extendedcommand flashFilename extras)

/-- `flashUpdate` comes to the reboot exactly if all operations go through. -/
theorem writeScripts_iff (prefs : Prefs) (deltaSignature : Bool) (flashFilename : String) (extras : List String)
    (cache : CacheRecovery) : (writeScripts F c prefs deltaSignature flashFilename extras cache).1 = true ↔
      GoThrough F 0 (scriptOperations c prefs deltaSignature flashFilename extras) := by
  simp only [writeScripts, scriptOperations]
  generalize (c.getInjectSignatureEnable prefs && deltaSignature) = injects
  generalize c.getSecureModeCurrent prefs = secure
  generalize written : (if injects = true then writeFile F [c.getInjectSignatureKeys] cache.keys 0
    else (true, cache.keys, 0)) = keys
  generalize counted : (if injects = true then fileOperations [c.getInjectSignatureKeys] else 0) = n
  have keysOk : keys.1 = true ↔ GoThrough F 0 n := by
    rw [← written, ← counted]
    cases injects with
    | true => simpa using writeFile_iff (F := F) [c.getInjectSignatureKeys] cache.keys 0
    | false => exact iff_of_true rfl (goThrough_self F 0)
  have keysNext : keys.1 = true → keys.2.2 = n := by
    rw [← written, ← counted]
    cases injects with
    | true => simpa using @writeFile_next F [c.getInjectSignatureKeys] cache.keys 0
    | false => exact fun _ => rfl
  rw [Nat.add_assoc, goThrough_trans (Nat.zero_le n) (Nat.le_add_right ..), ← keysOk]
  by_cases first : keys.1 = true
  case neg =>
    rw [if_neg first]
    exact iff_of_false Bool.false_ne_true fun both => first both.1
  rw [if_pos first, keysNext first, and_iff_right first]
  generalize openrecoveryscript injects secure flashFilename extras = script
  rw [← Nat.add_assoc, goThrough_trans (Nat.le_add_right ..) (Nat.le_add_right ..),
    ← writeFile_iff script cache.openrecoveryscript]
  by_cases second : (writeFile F script cache.openrecoveryscript n).1 = true
  case neg =>
    rw [if_neg second]
    exact iff_of_false Bool.false_ne_true fun both => second both.1
  rw [if_pos second, and_iff_right second]
  cases secure with
  | true =>
    rw [if_pos rfl, if_pos rfl]
    exact iff_of_true rfl (goThrough_self F _)
  | false =>
    rw [if_neg Bool.false_ne_true, if_neg Bool.false_ne_true, writeFile_next second]
    exact writeFile_iff ..

/-! ## What a call keeps -/

/-- The preferences of a ready file and its initial file, and that file on the
storage, are as they were. -/
structure Keeps (w w' : World) : Prop where
  readyFilename : w'.prefs.readyFilename = w.prefs.readyFilename
  deltaSignature : w'.prefs.deltaSignature = w.prefs.deltaSignature
  initialFile : w'.prefs.initialFile = w.prefs.initialFile
  content : ∀ i, w.prefs.initialFile = some i → w'.files.read i = w.files.read i

/-- A call that gives up keeps all of it. -/
def KeepsOnFailure (F : Surroundings) (c : Config) (w : World) (cache : CacheRecovery) : Prop :=
  (flashUpdate F c w cache).rebooted = false → Keeps w (flashUpdate F c w cache).world

/-- Nothing is ready, nothing noted down as signed, and there is no initial file. -/
structure Unset (prefs : Prefs) : Prop where
  readyFilename : prefs.readyFilename = none
  deltaSignature : prefs.deltaSignature = false
  initialFile : prefs.initialFile = none

/-- The calls that lose nothing: a permission is missing, there is nothing to
lose, or the scripts for a ready file in the path base can all be written. -/
inductive LosesNothing (F : Surroundings) (c : Config) (w : World) : Prop
  | refused (permissions : (F.accessCacheFilesystem && F.reboot) = false)
  | unset (unset : Unset w.prefs)
  | written (f : String) (ready : w.prefs.readyFilename = some f) (starts : startsWith f c.getPathBase = true)
      (through : GoThrough F 0 (scriptOperations c w.prefs w.prefs.deltaSignature (substringAfter f (pathSd c))
        ((getFlashAfterUpdateZIPs F c).map (substringAfter · (pathSd c)))))

/-- Clearing keeps what is not set, and nothing else. -/
theorem keeps_cleared {files : FileStore} :
    Keeps w { w.setPrefs w.prefs.clearState with files } → Unset w.prefs :=
  fun keeps => ⟨keeps.readyFilename.symm, keeps.deltaSignature.symm, keeps.initialFile.symm⟩

theorem deleteInitialFile_prefs (c : Config) (initialFile : Option String) (w : World) :
    (deleteInitialFile c initialFile w).prefs = w.prefs := by
  unfold deleteInitialFile
  split
  · split <;> rfl
  · rfl

/-- **`flashUpdate` keeps its state when it gives up** exactly in these calls. -/
theorem keepsOnFailure_iff (cache : CacheRecovery) : KeepsOnFailure F c w cache ↔ LosesNothing F c w := by
  have scripts := fun f => writeScripts_iff (F := F) (c := c) w.prefs.clearState w.prefs.deltaSignature
    (substringAfter f (pathSd c)) ((getFlashAfterUpdateZIPs F c).map (substringAfter · (pathSd c))) cache
  unfold KeepsOnFailure flashUpdate
  cases permitted : F.accessCacheFilesystem && F.reboot with
  | false =>
    refine iff_of_true (fun _ => ?_) (.refused permitted)
    exact ⟨rfl, rfl, rfl, fun _ _ => rfl⟩
  | true =>
    rw [if_pos rfl]
    have refused : ¬ (F.accessCacheFilesystem && F.reboot) = false := by simp [permitted]
    cases ready : w.prefs.readyFilename with
    | none =>
      constructor
      · intro keeps
        exact .unset (keeps_cleared (keeps rfl))
      · intro loses _
        cases loses with
        | refused permissions => exact absurd permissions refused
        | unset unset =>
          refine ⟨ready.symm, unset.deltaSignature.symm, unset.initialFile.symm, fun i noted => ?_⟩
          rfl
        | written f ready' => cases ready.symm.trans ready'
    | some f =>
      simp only
      by_cases starts : startsWith f c.getPathBase = true
      case neg =>
        rw [if_neg starts]
        constructor
        · intro keeps
          cases ready.symm.trans (keeps_cleared (keeps rfl)).readyFilename
        · intro loses _
          cases loses with
          | refused permissions => exact absurd permissions refused
          | unset unset => cases ready.symm.trans unset.readyFilename
          | written f' ready' starts' =>
            cases ready.symm.trans ready'
            exact absurd starts' starts
      rw [if_pos starts]
      constructor
      · intro keeps
        refine .written f ready starts ((scripts f).mp ?_)
        by_contra unwritten
        have kept := (keeps (Bool.not_eq_true _ ▸ unwritten)).readyFilename
        rw [deleteInitialFile_prefs, ready] at kept
        cases kept
      · intro loses gaveUp
        cases loses with
        | refused permissions => exact absurd permissions refused
        | unset unset => cases ready.symm.trans unset.readyFilename
        | written f' ready' starts' through =>
          cases ready.symm.trans ready'
          cases gaveUp.symm.trans ((scripts f).mpr through)

/-! ### A full cache partition -/

/-- A device with its permissions, on which nothing can be written. -/
def fullCache : Surroundings where
  accessCacheFilesystem := true
  reboot := true
  listFiles := none
  succeeds _ := false

/-- A built ZIP is ready to be flashed, with the ZIP it was built from. -/
def builtWorld : World :=
  (World.idle [("/sd/OpenDelta/omni-a.zip", [1]), ("/sd/OpenDelta/omni-b.zip", [3])]).setPrefs
    { (World.idle []).prefs with
      readyFilename := some "/sd/OpenDelta/omni-b.zip"
      deltaSignature := true
      initialFile := some "/sd/OpenDelta/omni-a.zip" }

def emptyCache : CacheRecovery := ⟨none, none, none⟩

/-- The first file cannot be opened, and the built ZIP is forgotten, the other
one deleted. -/
theorem flashUpdate_forgets : ¬ KeepsOnFailure fullCache sampleConfig builtWorld emptyCache ∧
    (flashUpdate fullCache sampleConfig builtWorld emptyCache).rebooted = false ∧
    (flashUpdate fullCache sampleConfig builtWorld emptyCache).world.prefs.readyFilename = none ∧
    (flashUpdate fullCache sampleConfig builtWorld emptyCache).world.files.read "/sd/OpenDelta/omni-a.zip" = none := by
  have gaveUp : (flashUpdate fullCache sampleConfig builtWorld emptyCache).rebooted = false := by decide
  have forgotten : (flashUpdate fullCache sampleConfig builtWorld emptyCache).world.prefs.readyFilename = none := by
    decide
  refine ⟨?_, gaveUp, forgotten, by decide⟩
  intro keeps
  have kept := (keeps gaveUp).readyFilename
  rw [forgotten] at kept
  cases kept

end OpenDelta.Flash
