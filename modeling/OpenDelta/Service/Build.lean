import OpenDelta.Service.Download

/-!
# Building a ZIP from deltas

Sizes, the search for the initial file, the download of the deltas and their
application. Reading the storage changes nothing in it, so what only reads is a
function of the store; what a method reports meanwhile is its caller's part.
-/

namespace OpenDelta.Service
open JavaString

variable (E : Env) (C : Conditions)

/-! ## Sizes -/

def sizeOnDisk (size : Int64) : Int64 := (size + 262143) / 262144 * 262144

/-- Whether a delta file is on the storage, as what it should be. -/
def hasUpdate (files : FileStore) (f : FileUpdate) : Bool :=
  f.matchFile E.md5 files (E.config.getPathBase ++ f.name) true = some .update

/-- A delta file with the tag `getDeltaDownloadSize` gives it. -/
def tagUpdate (files : FileStore) (f : FileUpdate) : FileUpdate :=
  if hasUpdate E files f then { f with tag := some (E.config.getPathBase ++ f.name) } else f

/-- Tags every update file, and the signature file of the last delta. -/
def tagDeltas (files : FileStore) : List DeltaInfo → List DeltaInfo
  | [] => []
  | [last] =>
    [{ last with
        update := tagUpdate E files last.update
        signature := if E.config.applySignature then tagUpdate E files last.signature else last.signature }]
  | d :: d' :: ds => { d with update := tagUpdate E files d.update } :: tagDeltas files (d' :: ds)

/-- What is left to download of a delta file. -/
def missingSize (files : FileStore) (f : FileUpdate) : Int64 :=
  if hasUpdate E files f then 0 else f.update.size

/-- `getDeltaDownloadSize`. -/
def getDeltaDownloadSize (files : FileStore) (deltas : List DeltaInfo) (last : DeltaInfo) : Int64 :=
  let size := deltas.foldl (fun size d => size + missingSize E files d.update) 0
  if E.config.applySignature then size + missingSize E files last.signature else size

/-- `getFullDownloadSize`. -/
def getFullDownloadSize (last : DeltaInfo) : Int64 := last.out.official.size

/-- `getRequiredSpace`, on tagged deltas. -/
def getRequiredSpace (deltas : List DeltaInfo) (last : DeltaInfo) (getFull : Bool) : Int64 :=
  if getFull then sizeOnDisk (if last.out.tag.isSome then 0 else last.out.official.size)
  else
    let space := deltas.foldl (fun space d =>
      if d.update.tag.isNone then space + sizeOnDisk d.update.update.size else space) 0
    let space := if E.config.applySignature then space + sizeOnDisk last.signature.update.size else space
    let biggest := deltas.foldl (fun biggest d => max biggest (sizeOnDisk d.update.applied.size)) 0
    space + 2 * sizeOnDisk biggest

/-! ## The initial file -/

/-- `findZIPOnSD`. -/
def findZIPOnSD (files : FileStore) (zip : FileFull) (base : Directory) : Option String :=
  base.scan.find? fun f =>
    endsWith (getName f) ".zip" && startsWith (getName f) E.config.filenameBasePrefix &&
      (zip.matchFile E.md5 files f true).isSome

/-- `findInitialFile`: the file, and whether it is anything but the store form. -/
def findInitialFile (files : FileStore) (first : DeltaInfo) (possibleMatch : String) : Option String × Bool :=
  let expectedLocation := E.config.getPathBase ++ first.input.name
  let bySize :=
    if expectedLocation = possibleMatch then first.input.matchFile E.md5 files expectedLocation false else none
  let expected := bySize.or (first.input.matchFile E.md5 files expectedLocation true)
  match expected with
  | some kind => (some expectedLocation, decide (kind ≠ .store))
  | none =>
    match (E.externalStorage :: E.secondaryStorages).findSome? (findZIPOnSD E files first.input) with
    | none => (none, false)
    | some f => (some f, decide (first.input.matchFile E.md5 files f false ≠ some .store))

/-! ## Downloading the deltas -/

/-- The loop of `downloadFiles` over the update files. -/
def downloadUpdates (force : Bool) : List DeltaInfo → World → Bool × World
  | [], w => (true, w)
  | d :: ds, w =>
    let result := downloadDeltaFile E C E.config.urlBaseUpdate d.update.name d.update.tag d.update.update.md5 force w
    if result.1 then downloadUpdates force ds result.2 else (false, result.2)

/-- `downloadFiles` for deltas; the service never calls it for a full ZIP. -/
def downloadFiles (deltas : List DeltaInfo) (last : DeltaInfo) (force : Bool) (w : World) : Bool × World :=
  let w := (w.emit .downloadFiles).updateState .downloading
  let updates := downloadUpdates E C force deltas w
  if updates.1 then
    let result :=
      if E.config.applySignature then
        downloadDeltaFile E C E.config.urlBaseUpdate last.signature.name last.signature.tag
          last.signature.update.md5 force updates.2
      else (true, updates.2)
    if result.1 then (true, result.2.updateState .downloading) else (false, result.2)
  else (false, updates.2)

/-! ## Applying the deltas -/

/-- How a native step ends: with 1, with 0, or in native code with the process. -/
inductive Native where
  | done | failed | crashed
  deriving DecidableEq, Repr

/-- `tempFiles`. -/
def tempFiles (i : Nat) : String := E.config.getPathBase ++ if i = 0 then "temp1" else "temp2"

/-- `zipadjust`, with its progress thread. The output is deleted before the native
call opens the input. -/
def zipadjust (filenameIn filenameOut : String) (w : World) : Native × World :=
  let w := { w with files := w.files.delete filenameOut }.updateState .applyingPatch
  match w.files.read filenameIn with
  | none => (.failed, w)
  | some bytes =>
    match Zip.zipadjust E.zlib bytes true with
    | .ok out => (.done, { w with files := w.files.write filenameOut out })
    | .error .failed => (.failed, w)
    | .error .undefined => (.crashed, w)

/-- `dedelta`, with its progress thread. The output is deleted before the native
call opens anything; a `null` source ends there. -/
def dedelta (filenameSource : Option String) (filenameDelta filenameOut : String) (w : World) : Native × World :=
  let w := { w with files := w.files.delete filenameOut }.updateState .applyingPatch
  match filenameSource with
  | none => (.crashed, w)
  | some filenameSource =>
    match w.files.read filenameSource, w.files.read filenameDelta with
    | some source, some delta =>
      match E.dedelta source delta with
      | .ok out => (.done, { w with files := w.files.write filenameOut out })
      | .error left => (.failed, { w with files := w.files.write filenameOut left })
    | _, _ => (.failed, w)

/-- The loop of `applyPatches`. `source` is the initial file where the first
delta reads it, `tempFile` the index of the next output. -/
def applyUpdates (last : DeltaInfo) (source : Option (Option String)) : List DeltaInfo → Nat → World →
    Native × Nat × World
  | [], tempFile, w => (.done, tempFile, w)
  | d :: ds, tempFile, w =>
    let inFile := source.getD (some (tempFiles E ((tempFile + 1) % 2)))
    let outFile :=
      if !E.config.applySignature && ds.isEmpty then E.config.getPathBase ++ last.out.name
      else tempFiles E tempFile
    let result := dedelta E inFile (E.config.getPathBase ++ d.update.name) outFile w
    match result.1 with
    | .done => applyUpdates last none ds ((tempFile + 1) % 2) result.2
    | ended => (ended, tempFile, result.2)

/-- The `try` block of `applyPatches`. -/
def applySteps (deltas : List DeltaInfo) (last : DeltaInfo) (initialFile : Option String)
    (needsProcessing : Bool) (w : World) : Native × World :=
  let adjusted :=
    match needsProcessing, initialFile with
    | true, some file => zipadjust E file (tempFiles E 0) w
    | _, _ => (.done, w)
  match adjusted.1 with
  | .done =>
    let updates := applyUpdates E last (if needsProcessing then none else some initialFile) deltas
      (if needsProcessing then 1 else 0) adjusted.2
    match updates.1 with
    | .done =>
      if E.config.applySignature then
        dedelta E (some (tempFiles E ((updates.2.1 + 1) % 2))) (E.config.getPathBase ++ last.signature.name)
          (E.config.getPathBase ++ last.out.name) updates.2.2
      else (.done, updates.2.2)
    | ended => (ended, updates.2.2)
  | ended => (ended, adjusted.2)

/-- `applyPatches`. Its `finally` deletes the temporary files. -/
def applyPatches (deltas : List DeltaInfo) (last : DeltaInfo) (initialFile : Option String)
    (needsProcessing : Bool) (w : World) : Native × World :=
  let result := applySteps E deltas last initialFile needsProcessing (w.emit .applyPatches)
  match result.1 with
  | .crashed => (.crashed, result.2)
  | ended =>
    let w := if ended = .failed then result.2.updateState .errorUnknown else result.2
    (ended, { w with files := (w.files.delete (tempFiles E 0)).delete (tempFiles E 1) })

end OpenDelta.Service
