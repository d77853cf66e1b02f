import OpenDelta.Service.Build

/-!
# `checkForUpdatesAsync`

The runnable, from the build list to its `finally` block. What only reads
servers and storage is a function of them; `runBody` performs the effects in
the order of the source.
-/

namespace OpenDelta.Service
open JavaString

variable (E : Env) (C : Conditions)

/-- `PREF_AUTO_DOWNLOAD_CHECK` and `PREF_AUTO_DOWNLOAD_FULL`. -/
def autoDownloadCheck : Int := 1
def autoDownloadFull : Int := 3

/-- The arguments of `checkForUpdatesAsync`. -/
structure Args where
  userInitiated : Bool
  checkOnly : Int

/-! ## The build list and the deltas -/

/-- The build names `getNewestFullBuild` collects; `none` is an exception. -/
def buildNames (buildData : String) : Option (List String) := do
  let object ← E.json.parse buildData
  let files ← ((E.json.keys object).filter (· = "./" ++ E.config.device)).mapM fun key => do
    (← E.json.getJSONArray object key).mapM fun build => do
      E.json.getString (← build) "filename"
  return (files.flatten.filter (endsWith · ".zip")).map getName

/-- `getNewestFullBuild`: the last build, or the error state it reports. -/
def getNewestFullBuild : Except ServiceState String :=
  match downloadUrlMemoryAsString E E.config.urlBaseJson with
  | none => .error .errorDownload
  | some buildData =>
    if buildData = "" then .error .errorDownload
    else
      match (buildNames E buildData).bind List.getLast? with
      | none => .error .errorUnofficial
      | some name => .ok name

/-- A `.delta` or `.delta_revoked` file; `none` when it is missing or no delta. -/
def readDelta (url : String) (revoked : Bool) : Option DeltaInfo :=
  (downloadUrlMemory E url).bind fun data =>
    if data = [] then none else DeltaInfo.parse E.json (E.decode data) revoked

/-- One turn of the fetch loop. -/
def fetchDelta (fetch : String) : Option DeltaInfo :=
  (readDelta E fetch false).or (readDelta E (replace fetch ".delta" ".delta_revoked") true)

/-- Where the delta that starts from a build is. -/
def deltaUrl (name : String) : String := E.config.urlBaseDelta ++ name ++ ".delta"

/-- The fetch loop; `none` when the fuel ends before the chain does. -/
def fetchDeltas : Nat → String → Option (List DeltaInfo)
  | 0, _ => none
  | fuel + 1, fetch =>
    match fetchDelta E fetch with
    | none => some []
    | some d => (fetchDeltas fuel (deltaUrl E (replace d.out.name ".zip" ""))).map (d :: ·)

/-! ## Past work -/

/-- The ZIP of a delta is on the storage, and it is the latest build. -/
def reusable (files : FileStore) (latestFullBuild : String) (d : DeltaInfo) : Bool :=
  (d.out.matchFile E.md5 files (E.config.getPathBase ++ d.out.name) true).isSome && latestFullBuild == d.out.name

/-- The last reusable delta and the deltas after it. -/
def findReusable (files : FileStore) (latestFullBuild : String) : List DeltaInfo → Option (DeltaInfo × List DeltaInfo)
  | [] => none
  | d :: ds =>
    (findReusable files latestFullBuild ds).or (if reusable E files latestFullBuild d then some (d, ds) else none)

/-- Whether the search for a reusable delta computes an MD5. -/
def reuseDigests (files : FileStore) (latestFullBuild : String) (deltas : List DeltaInfo) : Bool :=
  let examined :=
    match findReusable E files latestFullBuild deltas with
    | some (d, ds) => d :: ds
    | none => deltas
  examined.any fun d => computesMD5 files (E.config.getPathBase ++ d.out.name) d.out.sizes

/-- "Make sure the last delta is not revoked". -/
def trimRevoked (deltas : List DeltaInfo) : List DeltaInfo := (deltas.reverse.dropWhile (·.revoked)).reverse

/-- The deltas to apply: those after the reusable one, without revoked ones at
the end. -/
def keptDeltas (files : FileStore) (latestFullBuild : String) (deltas : List DeltaInfo) : List DeltaInfo :=
  match findReusable E files latestFullBuild deltas with
  | some (_, ds) => trimRevoked ds
  | none => trimRevoked deltas

/-! ## The full ZIP -/

def latestFullFetch (latestFullBuild : String) : String := E.config.urlBaseFull ++ latestFullBuild

def latestFullPath (latestFullBuild : String) : String := E.config.getPathBase ++ latestFullBuild

/-- A build is newer than the current version by name. -/
def isNewer (name : String) : Bool := comparesAfter name (E.config.filenameBase ++ ".zip")

/-- The full ZIP is on the storage with the MD5 of its `.md5sum`. -/
def fullVerified (files : FileStore) (latestFullBuild : String) : Bool :=
  checkFullBuildMd5Sum E files (latestFullFetch E latestFullBuild) (latestFullPath E latestFullBuild)

/-- Where a full ZIP is wanted, one that is there already is taken if it
verifies. The result is the new `downloadFullBuild`. -/
def takeFullBuild (latestFullBuild : String) (downloadFull : Bool) (w : World) : Bool × World :=
  if downloadFull && (w.files.read (latestFullPath E latestFullBuild)).isSome then
    let w := w.digesting (checkFullBuildDigests E (latestFullFetch E latestFullBuild)) .checkingMd5
    if fullVerified E w.files latestFullBuild then (false, w.setReady (latestFullPath E latestFullBuild))
    else (true, w)
  else (downloadFull, w)

/-- The size of the full ZIP as `PREF_DOWNLOAD_SIZE` shows it. -/
def fullSizeText (latestFullBuild : String) : String :=
  let size := getUrlDownloadSize E (latestFullFetch E latestFullBuild)
  if size ≠ 0 then toString size.toInt else E.downloadSizeUnknown

/-- Without an update `PREF_LATEST_FULL_NAME` is cleared. -/
def namesFull (updateAvailable : Bool) (prefs : Prefs) : Prefs :=
  { prefs with latestFullName := if updateAvailable then prefs.latestFullName else none }

/-- The branch without deltas. -/
def planFull (latestFullBuild : String) (w : World) : Bool × World :=
  let updateAvailable := isNewer E latestFullBuild
  let taken := takeFullBuild E latestFullBuild updateAvailable (w.setPrefs (namesFull updateAvailable w.prefs))
  (taken.1,
    if updateAvailable && taken.1 then taken.2.setDownloadSize (fullSizeText E latestFullBuild) else taken.2)

/-- The last decision of the runnable: download the full ZIP. -/
def finishFull (args : Args) (latestFullBuild : String) (downloadFull : Bool) (w : World) : World :=
  if downloadFull ∧ args.checkOnly = autoDownloadFull then
    let w' := w.lookUnless args.userInitiated
    if args.userInitiated || C.networkState w.networkReads then
      match getLatestFullMd5Sum E (latestFullFetch E latestFullBuild) with
      | some md5 => downloadFullBuild E C (latestFullFetch E latestFullBuild) md5 latestFullBuild w'
      | none => w'
    else w'
  else w

/-! ## The delta branch -/

/-- What the delta branch finds out before it changes anything. -/
structure Plan where
  deltas : List DeltaInfo
  last : DeltaInfo
  flashFilename : String
  deltaDownloadSize : Int64
  fullDownloadSize : Int64
  initialFile : Option String
  needsProcessing : Bool

/-- The plan for deltas `first :: rest`. -/
def makePlan (files : FileStore) (first : DeltaInfo) (rest : List DeltaInfo) : Plan :=
  let deltas := tagDeltas E files (first :: rest)
  let last := deltas.getLast?.getD first
  let flashFilename := E.config.getPathBase ++ last.out.name
  let initial := findInitialFile E files first flashFilename
  { deltas, last, flashFilename
    deltaDownloadSize := getDeltaDownloadSize E files (first :: rest) last
    fullDownloadSize := getFullDownloadSize last
    initialFile := initial.1
    needsProcessing := initial.2 }

namespace Plan

variable (latestFullBuild : String) (plan : Plan)

/-- "If we don't have a file to start out with, or the combined deltas get big". -/
def needsFull : Bool := plan.initialFile.isNone || decide (plan.fullDownloadSize < plan.deltaDownloadSize)

def deltaUpdatePossible : Bool :=
  !plan.needsFull && isNewer E (getName plan.flashFilename) && getName plan.flashFilename == latestFullBuild

/-- `updateAvilable`. -/
def updateAvailable : Bool := isNewer E latestFullBuild || plan.deltaUpdatePossible E latestFullBuild

/-- `downloadFullBuild`, before a look at the storage. -/
def wantsFull : Bool := plan.needsFull || (!plan.deltaUpdatePossible E latestFullBuild && isNewer E latestFullBuild)

/-- What the plan stores as the names of the update. -/
def names (prefs : Prefs) : Prefs :=
  { prefs with
    latestDeltaName :=
      if plan.updateAvailable E latestFullBuild && !plan.wantsFull E latestFullBuild then
        some (getName plan.flashFilename)
      else none
    latestFullName := if plan.updateAvailable E latestFullBuild then prefs.latestFullName else none }

end Plan

/-- The planning part of the delta branch; the result is `downloadFullBuild`.
The sizes report as checking, the search for the initial file as searching. -/
def planDelta (latestFullBuild : String) (plan : Plan) (w : World) : Bool × World :=
  let taken := takeFullBuild E latestFullBuild (plan.wantsFull E latestFullBuild)
    (((w.updateState .checking).updateState .searching).setPrefs (plan.names E latestFullBuild w.prefs))
  (taken.1,
    if plan.updateAvailable E latestFullBuild then
      if plan.deltaUpdatePossible E latestFullBuild then taken.2.setDownloadSize (toString plan.deltaDownloadSize.toInt)
      else if taken.1 then taken.2.setDownloadSize (toString plan.fullDownloadSize.toInt)
      else taken.2
    else taken.2)

/-- "Cleanup": the delta files and the outputs in between. -/
def cleanup (files : FileStore) : List DeltaInfo → FileStore
  | [] => files
  | d :: ds =>
    let files := files.delete (E.config.getPathBase ++ d.update.name)
    let files := files.delete (E.config.getPathBase ++ d.signature.name)
    cleanup (if ds.isEmpty then files else files.delete (E.config.getPathBase ++ d.out.name)) ds

/-- The result of a build is stored as ready. -/
def storeResult (plan : Plan) (w : World) : World :=
  let w := { w with files := cleanup E w.files plan.deltas }
  let initialFile :=
    match plan.initialFile with
    | some file => if startsWith file E.config.getPathBase then some file else w.prefs.initialFile
    | none => w.prefs.initialFile
  (w.setPrefs { w.prefs with initialFile, deltaSignature := true }).setReady plan.flashFilename

/-- How the runnable leaves its `try` block: through a `return`, by going on to
the full download, with an exception, or with the process. -/
inductive Exit where
  | returned (w : World)
  | continued (downloadFull : Bool) (w : World)
  | threw (w : World)
  | aborted (w : World)

namespace Plan

variable (plan : Plan)

/-- The plan's call of `downloadFiles`. -/
def download (args : Args) (w : World) : Bool × World :=
  downloadFiles E C plan.deltas plan.last args.userInitiated w

/-- The plan's call of `applyPatches`. -/
def patch (w : World) : Native × World :=
  applyPatches E plan.deltas plan.last plan.initialFile plan.needsProcessing w

/-- The final verification. -/
def verify (files : FileStore) : Bool :=
  (plan.last.out.matchFile E.md5 files plan.flashFilename true).isSome

end Plan

/-- Download, apply, verify. -/
def buildDelta (args : Args) (plan : Plan) (w : World) : Exit :=
  let downloaded := plan.download E C args w
  if downloaded.1 then
    let applied := plan.patch E downloaded.2
    match applied.1 with
    | .crashed => .aborted applied.2
    | .failed => .returned applied.2
    | .done =>
      let w := applied.2.digesting (computesMD5 applied.2.files plan.flashFilename plan.last.out.sizes) .applyingMd5
      if plan.verify E w.files then .continued false (storeResult E plan w)
      else .returned (w.updateState .errorUnknown)
  else .returned downloaded.2

/-- The delta branch. -/
def deltaBranch (args : Args) (latestFullBuild : String) (plan : Plan) (w : World) : Exit :=
  let planned := planDelta E latestFullBuild plan w
  if args.checkOnly = autoDownloadCheck then .returned planned.2
  else
    match C.freeSpace planned.2.spaceReads with
    | none => .threw planned.2.lookAtSpace
    | some freeSpace =>
      let w := planned.2.lookAtSpace
      if freeSpace < getRequiredSpace E plan.deltas plan.last planned.1 then
        .returned (w.updateState .errorDiskSpace)
      else if !planned.1 ∧ autoDownloadCheck < args.checkOnly then buildDelta E C args plan w
      else .continued planned.1 w

/-- The branch without deltas: past work, or the full ZIP only. -/
def fullBranch (args : Args) (latestFullBuild : String) (reuse : Option String) (w : World) : Exit :=
  match reuse with
  | some flashFilename => .returned (w.setReady flashFilename)
  | none =>
    let planned := planFull E latestFullBuild w
    if args.checkOnly = autoDownloadCheck then .returned planned.2 else .continued planned.1 planned.2

/-- The world in which the branches start: the search for past work is over, and
a reusable ZIP has told whether it is a signed one. -/
def searchPastWork (latestFullBuild : String) (deltas : List DeltaInfo) (w : World) : World :=
  let w := w.digesting (reuseDigests E w.files latestFullBuild deltas) .checkingMd5
  match findReusable E w.files latestFullBuild deltas with
  | some (d, _) =>
    w.setPrefs { w.prefs with
      deltaSignature := d.out.isSignedFile w.files (E.config.getPathBase ++ d.out.name) }
  | none => w

/-- The branch for the deltas that are kept. -/
def branch (args : Args) (latestFullBuild : String) (deltas : List DeltaInfo) (w : World) : Exit :=
  match keptDeltas E w.files latestFullBuild deltas with
  | [] =>
    fullBranch E args latestFullBuild
      ((findReusable E w.files latestFullBuild deltas).map fun found => E.config.getPathBase ++ found.1.out.name) w
  | first :: rest => deltaBranch E C args latestFullBuild (makePlan E w.files first rest) w

/-- What follows the branches. -/
def complete (args : Args) (latestFullBuild : String) : Exit → Exit
  | .continued downloadFull w => .returned (finishFull E C args latestFullBuild downloadFull w)
  | exit => exit

/-- The `try` block from the fetched deltas on. -/
def withDeltas (args : Args) (latestFullBuild : String) (deltas : List DeltaInfo) (w : World) : Exit :=
  complete E C args latestFullBuild
    (branch E C args latestFullBuild deltas (searchPastWork E latestFullBuild deltas w))

/-- The world after `clearState`. -/
def start (w : World) : World :=
  { w with
    networkReads := 0, spaceReads := 0, stopReads := 0, updateRunning := true, prefs := w.prefs.clearState }

/-- The world once the newest build is known. -/
def startFor (latestFullBuild : String) (w : World) : World :=
  (start w).setPrefs { w.prefs.clearState with latestFullName := some latestFullBuild }

/-- The deltas from the current version on. -/
def fetched (fuel : Nat) : Option (List DeltaInfo) := fetchDeltas E fuel (deltaUrl E E.config.filenameBase)

/-- The `try` block. `none` when the fetch loop has not ended. -/
def runBody (args : Args) (fuel : Nat) (w : World) : Option Exit :=
  match getNewestFullBuild E with
  | .error state => some (.returned ((start w).updateState state))
  | .ok latestFullBuild =>
    (fetched E fuel).map fun deltas => withDeltas E C args latestFullBuild deltas (startFor latestFullBuild w)

/-! ## The `finally` block -/

/-- `isSnoozeNotification`. -/
def isSnoozeNotification (w : World) : Bool :=
  let timeSnooze := decide ((C.now - w.prefs.lastSnoozeTime).abs ≤ 86400000)
  match w.prefs.latestFullName, w.prefs.snoozeUpdate with
  | some lastBuild, some snoozeBuild => timeSnooze && lastBuild == snoozeBuild
  | _, _ => timeSnooze

/-- `startNotification`; `false` when the name has no extension to cut off, which
is an exception. -/
def startNotification (w : World) : Bool × World :=
  match w.prefs.latestFullName with
  | none => (true, w)
  | some latestFull =>
    let name := (w.prefs.readyFilename.map getName).getD latestFull
    if name.toList.contains '.' then (true, w.emit .notification) else (false, w)

/-- The notification of `autoState`, unless the user started the run or snoozed. -/
def notifyUser (args : Args) (w : World) : Bool × World :=
  if !args.userInitiated && !isSnoozeNotification C w then startNotification w else (true, w)

/-- `autoState` as the runnable calls it, outside error states. -/
def autoState (args : Args) (w : World) : Bool × World :=
  let checkOnly := if C.stopDownload w.stopReads then autoDownloadCheck else args.checkOnly
  let w := w.lookAtStop
  let filename := w.prefs.readyFilename.filter fun f => (w.files.read f).isSome
  let updateAvailable := w.prefs.latestFullName.isSome || w.prefs.latestDeltaName.isSome
  if checkOnly = autoDownloadCheck ∧ filename.isNone then
    if updateAvailable then notifyUser C args (w.updateState .build) else (true, w.updateState .none)
  else if filename.isNone then (true, w.updateState .none)
  else notifyUser C args (w.updateState .ready)

/-- `shouldShowErrorNotification`. -/
def shouldShowErrorNotification (w : World) : World :=
  if E.dailyAlarm || decide (4 ≤ w.failedUpdateCount) then
    { w with failedUpdateCount := 0 }.emit .errorNotification
  else w

/-- The `finally` block; `false` when it ends in an exception. -/
def runFinally (args : Args) (w : World) : Bool × World :=
  let w := { w with prefs := { w.prefs with lastCheckTime := C.now } }
  if w.state.isErrorState then
    let w := { w with failedUpdateCount := w.failedUpdateCount + 1, prefs := w.prefs.clearState }
    let w := if args.userInitiated then w else shouldShowErrorNotification E w
    (true, { w with updateRunning := false })
  else
    let shown := autoState C args { w with failedUpdateCount := 0 }
    if shown.1 then (true, { shown.2 with updateRunning := false }) else (false, shown.2)

/-- How a run ends: normally, with an uncaught exception, or with the process
inside native code. -/
inductive Ending where
  | finished (w : World)
  | threw (w : World)
  | aborted (w : World)

namespace Ending

def world : Ending → World
  | finished w => w
  | threw w => w
  | aborted w => w

end Ending

/-- The `finally` block after a normal end of the `try` block. -/
def conclude (args : Args) (w : World) : Ending :=
  if (runFinally E C args w).1 then .finished (runFinally E C args w).2 else .threw (runFinally E C args w).2

/-- What follows the `try` block. -/
def settle (args : Args) : Exit → Ending
  | .aborted w => .aborted w
  | .threw w => .threw (runFinally E C args w).2
  | .returned w => conclude E C args w
  | .continued _ w => conclude E C args w

/-- The runnable. -/
def run (args : Args) (fuel : Nat) (w : World) : Option Ending :=
  (runBody E C args fuel w).map (settle E C args)

/-- `checkForUpdatesAsync`, whose runnable comes up with nothing in between. -/
def checkForUpdatesAsync (args : Args) (fuel : Nat) (w : World) : Option Ending :=
  run E C args fuel (w.updateState .checking)

end OpenDelta.Service
