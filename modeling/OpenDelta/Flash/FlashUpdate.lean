import Mathlib.Data.List.Sort
import OpenDelta.Data.TextLines
import OpenDelta.Service.World

/-!
# `flashUpdate`

The scripts for the recovery. Every write under `/cache/recovery` can fail; the
exception ends the method, and what is written so far stays.
-/

namespace OpenDelta.Flash
open Service JavaString TextLines

/-- What `flashUpdate` finds: permissions, the listing of `FlashAfterUpdate`, and
which of its successive file operations in `/cache/recovery` go through. -/
structure Surroundings where
  accessCacheFilesystem : Bool
  reboot : Bool
  listFiles : Option (List String)
  succeeds : Nat → Bool

/-- The files in `/cache/recovery`. -/
structure CacheRecovery where
  keys : Option String
  openrecoveryscript : Option String
  extendedcommand : Option String
  deriving DecidableEq, Repr

variable (F : Surroundings) (c : Config)

/-! ## Additional ZIPs -/

/-- `s.toLowerCase(Locale.ENGLISH).endsWith(".zip")`: no other character has one
of these letters as its lower case. -/
def isZipName (s : String) : Bool := endsWith (String.ofList (s.toList.map Char.toLower)) ".zip"

/-- `getFlashAfterUpdateZIPs`. -/
def getFlashAfterUpdateZIPs : List String :=
  match F.listFiles with
  | none => []
  | some files =>
    (files.filter fun f => isZipName (getName f) && startsWith f c.getPathBase).insertionSort
      fun s t => comparesAfter s t = false

/-- `s.substring(t.length())`, for a text `s` that starts with `t`. -/
def substringAfter (s t : String) : String := String.ofList (s.toList.drop t.toList.length)

/-- `path_sd`. -/
def pathSd : String := c.externalStorage ++ "/"

/-! ## Files -/

/-- `writeString`, line by line. -/
def writeStrings : List String → String → Nat → Bool × Option String × Nat
  | [], text, n => (true, some text, n)
  | s :: rest, text, n =>
    if F.succeeds n then writeStrings rest (text ++ (s ++ "\n")) (n + 1) else (false, some text, n + 1)

/-- A new file with some lines in place of an old one. -/
def writeFile (lines : List String) (old : Option String) (n : Nat) : Bool × Option String × Nat :=
  if F.succeeds n then writeStrings F lines "" (n + 1) else (false, old, n + 1)

/-! ## The scripts -/

/-- The lines of `openrecoveryscript`. -/
def openrecoveryscript (injects secure : Bool) (flashFilename : String) (extras : List String) : List String :=
  (if injects then
      ["cmd cat /res/keys > /res/keys_org", "cmd cat /cache/recovery/keys > /res/keys",
        "set tw_signed_zip_verify 1", "install " ++ flashFilename, "set tw_signed_zip_verify 0",
        "cmd cat /res/keys_org > /res/keys", "cmd rm /res/keys_org"]
    else ["set tw_signed_zip_verify 0", "install " ++ flashFilename]) ++
    (if secure then [] else extras.map ("install " ++ ·)) ++ ["wipe cache"]

def installZip (root file : String) : String := "install_zip(\"" ++ root ++ file ++ "\");"

/-- The lines of `extendedcommand`. -/
def extendedcommand (flashFilename : String) (extras : List String) : List String :=
  (flashFilename :: extras).flatMap (fun file => [installZip "/sdcard/" file, installZip "/emmc/" file]) ++
    ["run_program(\"/sbin/busybox\", \"rm\", \"-rf\", \"/cache/*\");"]

/-- The `try` block: the files in `/cache/recovery`, and whether it comes to the
reboot. -/
def writeScripts (prefs : Prefs) (deltaSignature : Bool) (flashFilename : String) (extras : List String)
    (cache : CacheRecovery) : Bool × CacheRecovery :=
  let injects := c.getInjectSignatureEnable prefs && deltaSignature
  let secure := c.getSecureModeCurrent prefs
  let keys := if injects then writeFile F [c.getInjectSignatureKeys] cache.keys 0 else (true, cache.keys, 0)
  let cache := { cache with keys := keys.2.1 }
  if keys.1 then
    let script := writeFile F (openrecoveryscript injects secure flashFilename extras) cache.openrecoveryscript keys.2.2
    let cache := { cache with openrecoveryscript := script.2.1 }
    if script.1 then
      if secure then (true, { cache with extendedcommand := none })
      else
        let command := writeFile F (extendedcommand flashFilename extras) cache.extendedcommand script.2.2
        (command.1, { cache with extendedcommand := command.2.1 })
    else (false, cache)
  else (false, cache)

/-- What `flashUpdate` leaves. -/
structure Flashed where
  world : World
  cache : CacheRecovery
  rebooted : Bool

/-- The initial file is deleted, if it lies in the path base. -/
def deleteInitialFile (initialFile : Option String) (w : World) : World :=
  match initialFile with
  | some file => if startsWith file c.getPathBase then { w with files := w.files.delete file } else w
  | none => w

/-- `flashUpdate`. -/
def flashUpdate (w : World) (cache : CacheRecovery) : Flashed :=
  if F.accessCacheFilesystem && F.reboot then
    let cleared := w.setPrefs w.prefs.clearState
    match w.prefs.readyFilename with
    | none => ⟨cleared, cache, false⟩
    | some flashFilename =>
      if startsWith flashFilename c.getPathBase then
        let written := writeScripts F c cleared.prefs w.prefs.deltaSignature (substringAfter flashFilename (pathSd c))
          ((getFlashAfterUpdateZIPs F c).map (substringAfter · (pathSd c))) cache
        ⟨deleteInitialFile c w.prefs.initialFile cleared, written.2, written.1⟩
      else ⟨cleared, cache, false⟩
  else ⟨w, cache, false⟩

end OpenDelta.Flash
