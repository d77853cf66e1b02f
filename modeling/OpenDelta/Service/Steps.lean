import OpenDelta.Service.Routes

/-!
# The steps of a run

What the runnable reports and stores on its way through the `try` block, step by
step in the order of the source: the points at which the main thread can see the
service. A progress listener's repetitions of its state are one step.
-/

namespace OpenDelta.Service
open JavaString

/-- A preference the runnable stores, with a `commit` of its own. -/
inductive Edit where
  | latestFullName (name : Option String)
  | latestDeltaName (name : Option String)
  | readyFilename (file : Option String)
  | downloadSize (text : Option String)
  | deltaSignature (signed : Bool)
  | initialFile (file : Option String)
  deriving DecidableEq

def Edit.apply (p : Prefs) : Edit → Prefs
  | latestFullName name => { p with latestFullName := name }
  | latestDeltaName name => { p with latestDeltaName := name }
  | readyFilename file => { p with readyFilename := file }
  | downloadSize text => { p with downloadSize := text }
  | deltaSignature signed => { p with deltaSignature := signed }
  | initialFile file => { p with initialFile := file }

/-- A call of `updateState`, or a stored preference. -/
inductive RunStep where
  | report (state : ServiceState)
  | store (edit : Edit)
  deriving DecidableEq

/-- What there is to see of the service. -/
structure Display where
  state : ServiceState
  prefs : Prefs

def RunStep.perform (d : Display) : RunStep → Display
  | report state => { d with state }
  | store edit => { d with prefs := edit.apply d.prefs }

def World.display (w : World) : Display := ⟨w.state, w.prefs⟩

/-- The steps lead from the display of `w` to that of `w'`. -/
def Leads (steps : List RunStep) (w w' : World) : Prop := steps.foldl RunStep.perform w.display = w'.display

variable {E : Env} {C : Conditions} {args : Args} {latest : String}

namespace Leads

variable {steps steps' : List RunStep} {w w' w'' : World}

theorem of_eq (display : w.display = w'.display) : Leads [] w w' := display

theorem refl (w : World) : Leads [] w w := rfl

theorem report (w : World) (s : ServiceState) : Leads [.report s] w (w.updateState s) := rfl

theorem append (first : Leads steps w w') (second : Leads steps' w' w'') : Leads (steps ++ steps') w w'' := by
  rw [Leads, List.foldl_append, first, second]

theorem cons {step : RunStep} (second : Leads steps w' w'') (first : Leads [step] w w') :
    Leads (step :: steps) w w'' := first.append second

/-- Only the display at both ends matters. -/
theorem congr {v v' : World} (leads : Leads steps v v') (before : w.display = v.display)
    (behind : v'.display = w'.display) : Leads steps w w' := by
  rw [Leads, before, leads, behind]

end Leads

/-! ## Checks and plans -/

section Plans

variable (E)

/-- What a listener reports where an MD5 is computed. -/
def digestStates (computes : Bool) (state : ServiceState) : List ServiceState := if computes then [state] else []

def digestSteps (computes : Bool) (state : ServiceState) : List RunStep := (digestStates computes state).map .report

/-- `clearState`. -/
def clearSteps : List RunStep :=
  [.store (.latestFullName none), .store (.latestDeltaName none), .store (.readyFilename none),
    .store (.downloadSize none), .store (.deltaSignature false), .store (.initialFile none)]

/-- "See if we have done past work". -/
def searchSteps (files : FileStore) (latestFullBuild : String) (deltas : List DeltaInfo) : List RunStep :=
  digestSteps (reuseDigests E files latestFullBuild deltas) .checkingMd5 ++
    match findReusable E files latestFullBuild deltas with
    | some (d, _) => [.store (.deltaSignature (d.out.isSignedFile files (E.config.getPathBase ++ d.out.name)))]
    | none => []

/-- The look at a full ZIP that is there already. -/
def takeSteps (latestFullBuild : String) (downloadFull : Bool) (files : FileStore) : List RunStep :=
  if downloadFull && (files.read (latestFullPath E latestFullBuild)).isSome then
    digestSteps (checkFullBuildDigests E (latestFullFetch E latestFullBuild)) .checkingMd5 ++
      if fullVerified E files latestFullBuild then
        [.store (.readyFilename (some (latestFullPath E latestFullBuild)))]
      else []
  else []

/-- The branch without deltas. -/
def planFullSteps (latestFullBuild : String) (w : World) : List RunStep :=
  (if isNewer E latestFullBuild then [] else [.store (.latestFullName none)]) ++
    takeSteps E latestFullBuild (isNewer E latestFullBuild) w.files ++
    if isNewer E latestFullBuild && (planFull E latestFullBuild w).1 then
      [.store (.downloadSize (some (fullSizeText E latestFullBuild)))]
    else []

/-- The reports of `getDeltaDownloadSize`. -/
def sizeStates (files : FileStore) (deltas : List DeltaInfo) (last : DeltaInfo) : List ServiceState :=
  let looked := deltas.map (·.update) ++ if E.config.applySignature then [last.signature] else []
  .checking ::
    (looked.flatMap fun f => digestStates (computesMD5 files (E.config.getPathBase ++ f.name) f.sizes) .checkingMd5) ++
    [.checking]

/-- The reports of `findZIPOnSD`, file by file. -/
def scanStates (files : FileStore) (zip : FileFull) : List String → List ServiceState
  | [] => []
  | f :: fs =>
    if endsWith (getName f) ".zip" && startsWith (getName f) E.config.filenameBasePrefix then
      digestStates (computesMD5 files f zip.sizes) .searchingMd5 ++ .searching ::
        if (zip.matchFile E.md5 files f true).isSome then [] else scanStates files zip fs
    else scanStates files zip fs

/-- The reports of `findInitialFile`. -/
def initialStates (files : FileStore) (first : DeltaInfo) (possibleMatch : String) : List ServiceState :=
  let expectedLocation := E.config.getPathBase ++ first.input.name
  let bySize :=
    if expectedLocation = possibleMatch then first.input.matchFile E.md5 files expectedLocation false else none
  let expected := bySize.or (first.input.matchFile E.md5 files expectedLocation true)
  .searching ::
    digestStates (bySize.isNone && computesMD5 files expectedLocation first.input.sizes) .searchingMd5 ++
    .searching ::
      if expected.isSome then []
      else scanStates E files first.input ((E.externalStorage :: E.secondaryStorages).flatMap Directory.scan)

/-- The names of the update. -/
def Plan.nameSteps (latestFullBuild : String) (plan : Plan) : List RunStep :=
  if plan.updateAvailable E latestFullBuild then
    [.store (.latestDeltaName (if plan.wantsFull E latestFullBuild then none else some (getName plan.flashFilename)))]
  else [.store (.latestDeltaName none), .store (.latestFullName none)]

/-- The planning part of the delta branch. -/
def planDeltaSteps (latestFullBuild : String) (first : DeltaInfo) (rest : List DeltaInfo) (w : World) : List RunStep :=
  let plan := makePlan E w.files first rest
  (sizeStates E w.files (first :: rest) plan.last ++ initialStates E w.files first plan.flashFilename).map .report ++
    plan.nameSteps E latestFullBuild ++ takeSteps E latestFullBuild (plan.wantsFull E latestFullBuild) w.files ++
    if plan.updateAvailable E latestFullBuild then
      if plan.deltaUpdatePossible E latestFullBuild then
        [.store (.downloadSize (some (toString plan.deltaDownloadSize.toInt)))]
      else if (planDelta E latestFullBuild plan w).1 then
        [.store (.downloadSize (some (toString plan.fullDownloadSize.toInt)))]
      else []
    else []

end Plans

/-! ## Downloads and patches -/

section Work

variable (E C)

/-- `downloadDeltaFile`. -/
def deltaSteps (name : String) (tag : Option String) (matchMD5 : String) (force : Bool) (w : World) : List RunStep :=
  if tag.isNone && (force || C.networkState w.networkReads) then
    let url := E.config.urlBaseUpdate ++ name
    let fn := E.config.getPathBase ++ name
    let result := downloadUrlFile E C url fn matchMD5 ((w.lookUnless force).emit (.transfer url fn))
    if result.1 || C.stopDownload result.2.stopReads then [] else [.report .errorDownload]
  else []

/-- The loop of `downloadFiles`. -/
def updateSteps (force : Bool) : List DeltaInfo → World → List RunStep
  | [], _ => []
  | d :: ds, w =>
    let result := downloadDeltaFile E C E.config.urlBaseUpdate d.update.name d.update.tag d.update.update.md5 force w
    deltaSteps E C d.update.name d.update.tag d.update.update.md5 force w ++
      if result.1 then updateSteps force ds result.2 else []

/-- `downloadFiles`. -/
def chainSteps (deltas : List DeltaInfo) (last : DeltaInfo) (force : Bool) (w : World) : List RunStep :=
  let begun := (w.emit .downloadFiles).updateState .downloading
  let updates := downloadUpdates E C force deltas begun
  .report .downloading ::
    (updateSteps E C force deltas begun ++
      ((if updates.1 && E.config.applySignature then
          deltaSteps E C last.signature.name last.signature.tag last.signature.update.md5 force updates.2
        else []) ++
        if (downloadFiles E C deltas last force w).1 then [.report .downloading] else []))

/-- The result of a build is stored as ready. -/
def storeSteps (plan : Plan) : List RunStep :=
  (match plan.initialFile with
    | some file => if startsWith file E.config.getPathBase then [.store (.initialFile (some file))] else []
    | none => []) ++
    [.store (.deltaSignature true), .store (.readyFilename (some plan.flashFilename))]

/-- Download, apply, verify. -/
def buildSteps (args : Args) (plan : Plan) (w : World) : List RunStep :=
  let downloaded := plan.download E C args w
  chainSteps E C plan.deltas plan.last args.userInitiated w ++
    if downloaded.1 then
      let applied := plan.patch E downloaded.2
      .report .applyingPatch ::
        match applied.1 with
        | .crashed => []
        | .failed => [.report .errorUnknown]
        | .done =>
          digestSteps (computesMD5 applied.2.files plan.flashFilename plan.last.out.sizes) .applyingMd5 ++
            if plan.verify E applied.2.files then
              storeSteps E plan
            else [.report .errorUnknown]
    else []

/-- The answer for a file of unknown size declares more bytes than there are free. -/
def declaresTooMuch (url : String) (spaceReads : Nat) : Bool :=
  match E.server url, C.freeSpace spaceReads with
  | some response, some freeSpace => decide (response.statusCode = 200 ∧ freeSpace < response.intLength)
  | _, _ => false

/-- `downloadFullBuild`, from `downloadUrlFileUnknownSize` on. -/
def fullBuildSteps (url md5Sum imageName : String) (w : World) : List RunStep :=
  let fn := E.config.getPathBase ++ imageName
  let result := downloadUrlFileUnknownSize E C url fn md5Sum (w.emit (.transfer url fn))
  .report .downloading ::
    ((if declaresTooMuch E C url w.spaceReads then [.report .errorDiskSpace] else []) ++
      .report .downloading ::
        if result.1 then [.store (.readyFilename (some fn))]
        else if C.stopDownload result.2.stopReads then []
        else [.report .errorDownload])

/-- The last decision of the runnable. -/
def finishSteps (args : Args) (latestFullBuild : String) (downloadFull : Bool) (w : World) : List RunStep :=
  if downloadFull ∧ args.checkOnly = autoDownloadFull then
    if args.userInitiated || C.networkState w.networkReads then
      match getLatestFullMd5Sum E (latestFullFetch E latestFullBuild) with
      | some md5 =>
        fullBuildSteps E C (latestFullFetch E latestFullBuild) md5 latestFullBuild (w.lookUnless args.userInitiated)
      | none => []
    else []
  else []

/-- The delta branch and what follows it. -/
def deltaBranchSteps (args : Args) (latestFullBuild : String) (first : DeltaInfo) (rest : List DeltaInfo)
    (w : World) : List RunStep :=
  let plan := makePlan E w.files first rest
  let planned := planDelta E latestFullBuild plan w
  planDeltaSteps E latestFullBuild first rest w ++
    if args.checkOnly = autoDownloadCheck then []
    else
      match C.freeSpace planned.2.spaceReads with
      | none => []
      | some freeSpace =>
        let w := planned.2.lookAtSpace
        if freeSpace < getRequiredSpace E plan.deltas plan.last planned.1 then [.report .errorDiskSpace]
        else if !planned.1 ∧ autoDownloadCheck < args.checkOnly then buildSteps E C args plan w
        else finishSteps E C args latestFullBuild planned.1 w

/-- The branch without deltas and what follows it. -/
def fullBranchSteps (args : Args) (latestFullBuild : String) (reuse : Option String) (w : World) : List RunStep :=
  match reuse with
  | some flashFilename => [.store (.readyFilename (some flashFilename))]
  | none =>
    let planned := planFull E latestFullBuild w
    planFullSteps E latestFullBuild w ++
      if args.checkOnly = autoDownloadCheck then [] else finishSteps E C args latestFullBuild planned.1 planned.2

def branchSteps (args : Args) (latestFullBuild : String) (deltas : List DeltaInfo) (w : World) : List RunStep :=
  match keptDeltas E w.files latestFullBuild deltas with
  | [] =>
    fullBranchSteps E C args latestFullBuild
      ((findReusable E w.files latestFullBuild deltas).map fun found => E.config.getPathBase ++ found.1.out.name) w
  | first :: rest => deltaBranchSteps E C args latestFullBuild first rest w

/-- The steps of the `try` block, up to the end of the fetch loop where the fuel
does not reach it. -/
def runSteps (args : Args) (fuel : Nat) (w : World) : List RunStep :=
  clearSteps ++
    match getNewestFullBuild E with
    | .error state => [.report state]
    | .ok latestFullBuild =>
      .store (.latestFullName (some latestFullBuild)) ::
        match fetched E fuel with
        | none => []
        | some deltas =>
          searchSteps E w.files latestFullBuild deltas ++
            branchSteps E C args latestFullBuild deltas (searched E latestFullBuild deltas w)

end Work

/-! ## The steps are those of the model -/

theorem digestSteps_leads (w : World) (computes : Bool) (s : ServiceState) :
    Leads (digestSteps computes s) w (w.digesting computes s) := by
  cases computes <;> rfl

theorem takeSteps_leads (wants : Bool) (w : World) :
    Leads (takeSteps E latest wants w.files) w (takeFullBuild E latest wants w).2 := by
  unfold takeSteps takeFullBuild
  by_cases found : (wants && (w.files.read (latestFullPath E latest)).isSome) = true
  · rw [if_pos found, if_pos found]
    refine (digestSteps_leads w _ .checkingMd5).append ?_
    simp only [World.digesting_files]
    split
    · rfl
    · exact .refl _
  · rw [if_neg found, if_neg found]
    exact .refl w

theorem planFullSteps_leads (w : World) : Leads (planFullSteps E latest w) w (planFull E latest w).2 := by
  have flag : (planFull E latest w).1 = (takeFullBuild E latest (isNewer E latest)
    (w.setPrefs (namesFull (isNewer E latest) w.prefs))).1 := rfl
  have named : Leads (if isNewer E latest then [] else [.store (.latestFullName none)]) w
      (w.setPrefs (namesFull (isNewer E latest) w.prefs)) := by
    cases isNewer E latest <;> rfl
  refine (named.append (takeSteps_leads ..)).append ?_
  rw [flag, planFull]
  by_cases sized : (isNewer E latest && (takeFullBuild E latest (isNewer E latest)
      (w.setPrefs (namesFull (isNewer E latest) w.prefs))).1) = true
  · rw [if_pos sized]
    simp only
    rw [if_pos sized]
    rfl
  · rw [if_neg sized]
    simp only
    rw [if_neg sized]
    exact .refl _

/-- Of reports in a row the last one stays. -/
theorem foldl_reports (states : List ServiceState) (d : Display) :
    (states.map RunStep.report).foldl RunStep.perform d = { d with state := states.getLast?.getD d.state } := by
  induction states generalizing d with
  | nil => rfl
  | cons s states ih =>
    rw [List.map_cons, List.foldl_cons, ih, List.getLast?_cons]
    rfl

theorem scanStates_last (files : FileStore) (zip : FileFull) (fs : List String) :
    (scanStates E files zip fs).getLast?.getD .searching = .searching := by
  induction fs with
  | nil => rfl
  | cons f fs ih =>
    rw [scanStates]
    split
    · rw [List.getLast?_append, List.getLast?_cons]
      split
      · rfl
      · exact ih
    · exact ih

theorem initialStates_last (files : FileStore) (first : DeltaInfo) (possibleMatch : String) :
    (initialStates E files first possibleMatch).getLast? = some .searching := by
  have scanned : ∀ (expected : Bool) (fs : List String),
      (if expected then [] else scanStates E files first.input fs).getLast?.getD .searching = .searching := by
    intro expected fs
    cases expected with
    | true => rfl
    | false => exact scanStates_last ..
  simp only [initialStates]
  rw [List.cons_append, List.getLast?_cons, List.getLast?_append, List.getLast?_cons]
  refine congrArg some ?_
  rw [Option.some_or, Option.getD_some]
  exact scanned _ _

theorem nameSteps_leads (plan : Plan) (w : World) :
    Leads (plan.nameSteps E latest) w (w.setPrefs (plan.names E latest w.prefs)) := by
  unfold Plan.nameSteps Plan.names
  cases plan.updateAvailable E latest with
  | false => rfl
  | true => cases plan.wantsFull E latest <;> rfl

theorem planDeltaSteps_leads (first : DeltaInfo) (rest : List DeltaInfo) (w : World) :
    Leads (planDeltaSteps E latest first rest w) w (planDelta E latest (makePlan E w.files first rest) w).2 := by
  simp only [planDeltaSteps]
  generalize makePlan E w.files first rest = plan
  have looked : Leads ((sizeStates E w.files (first :: rest) plan.last ++
      initialStates E w.files first plan.flashFilename).map .report) w
      ((w.updateState .checking).updateState .searching) := by
    rw [Leads, foldl_reports, List.getLast?_append, initialStates_last]
    rfl
  refine ((looked.append (nameSteps_leads plan _)).append (takeSteps_leads ..)).append ?_
  unfold planDelta
  simp only
  cases plan.updateAvailable E latest with
  | false => exact .refl _
  | true =>
    cases plan.deltaUpdatePossible E latest with
    | true => rfl
    | false =>
      simp only [if_true, if_false, Bool.false_eq_true]
      split
      · rfl
      · exact .refl _

/-! ### Downloads -/

theorem downloadUrlFile_display (url path md5 : String) (w : World) :
    (downloadUrlFile E C url path md5 w).2.display = w.display := by
  rw [World.display, downloadUrlFile_prefs]
  refine congrArg (Display.mk · w.prefs) ?_
  rw [downloadUrlFile]
  split
  · rfl
  · split
    · rfl
    · exact receiveFile_state ..

theorem World.lookUnless_display (force : Bool) (w : World) : (w.lookUnless force).display = w.display := by
  cases force <;> rfl

theorem deltaSteps_leads (name : String) (tag : Option String) (md5 : String) (force : Bool) (w : World) :
    Leads (deltaSteps E C name tag md5 force w) w
      (downloadDeltaFile E C E.config.urlBaseUpdate name tag md5 force w).2 := by
  cases tag with
  | some fn => exact .refl w
  | none =>
    simp only [deltaSteps, downloadDeltaFile, Option.isNone_none, Bool.true_and]
    by_cases allowed : (force || C.networkState w.networkReads) = true
    · have fetched : (downloadUrlFile E C (E.config.urlBaseUpdate ++ name) (E.config.getPathBase ++ name) md5
          ((w.lookUnless force).emit (.transfer (E.config.urlBaseUpdate ++ name)
            (E.config.getPathBase ++ name)))).2.display = w.display :=
        (downloadUrlFile_display ..).trans (w.lookUnless_display force)
      rw [if_pos allowed, if_pos allowed]
      generalize downloadUrlFile E C (E.config.urlBaseUpdate ++ name) (E.config.getPathBase ++ name) md5
        ((w.lookUnless force).emit (.transfer (E.config.urlBaseUpdate ++ name) (E.config.getPathBase ++ name))) =
          result at fetched ⊢
      cases received : result.1 with
      | true => exact .of_eq fetched.symm
      | false =>
        simp only [Bool.false_or, Bool.false_eq_true, if_false]
        split
        · exact .of_eq fetched.symm
        · exact (Leads.report _ .errorDownload).congr fetched.symm rfl
    · rw [if_neg allowed, if_neg allowed]
      exact .of_eq (w.lookUnless_display force).symm

theorem updateSteps_leads (force : Bool) (ds : List DeltaInfo) (w : World) :
    Leads (updateSteps E C force ds w) w (downloadUpdates E C force ds w).2 := by
  induction ds generalizing w with
  | nil => exact .refl w
  | cons d ds ih =>
    simp only [updateSteps, downloadUpdates]
    refine (deltaSteps_leads ..).append ?_
    split
    · exact ih _
    · exact .refl _

theorem chainSteps_leads (ds : List DeltaInfo) (last : DeltaInfo) (force : Bool) (w : World) :
    Leads (chainSteps E C ds last force w) w (downloadFiles E C ds last force w).2 := by
  have begun : Leads [.report .downloading] w ((w.emit .downloadFiles).updateState .downloading) := rfl
  have updates := updateSteps_leads (E := E) (C := C) force ds ((w.emit .downloadFiles).updateState .downloading)
  simp only [chainSteps]
  refine Leads.cons (updates.append ?_) begun
  simp only [downloadFiles]
  cases ok : (downloadUpdates E C force ds ((w.emit .downloadFiles).updateState .downloading)).1 with
  | false => exact .refl _
  | true =>
    simp only [Bool.true_and, if_true]
    by_cases signed : E.config.applySignature = true
    · simp only [signed, if_true]
      refine (deltaSteps_leads ..).append ?_
      split
      · rfl
      · exact .refl _
    · rw [if_neg signed, if_neg signed]
      rfl

theorem fullBuildSteps_leads (url md5 name : String) (w : World) :
    Leads (fullBuildSteps E C url md5 name w) w (downloadFullBuild E C url md5 name w) := by
  have fetched : (downloadUrlFileUnknownSize E C url (E.config.getPathBase ++ name) md5
      (w.emit (.transfer url (E.config.getPathBase ++ name)))).2.display = (w.updateState .downloading).display := by
    rw [World.display, downloadUrlFileUnknownSize_prefs]
    rfl
  simp only [fullBuildSteps, downloadFullBuild]
  generalize downloadUrlFileUnknownSize E C url (E.config.getPathBase ++ name) md5
    (w.emit (.transfer url (E.config.getPathBase ++ name))) = result at fetched ⊢
  have begun : Leads [.report .downloading] w (w.updateState .downloading) := .report ..
  have checked : Leads (if declaresTooMuch E C url w.spaceReads then [.report .errorDiskSpace] else [])
      (w.updateState .downloading) (w.updateState (if declaresTooMuch E C url w.spaceReads then .errorDiskSpace
        else .downloading)) := by
    split <;> rfl
  refine .cons (checked.append (.cons ?_ (fetched.symm : Leads [.report .downloading] _ result.2))) begun
  cases result.1 with
  | true => rfl
  | false =>
    simp only [Bool.false_eq_true, if_false]
    split <;> rfl

theorem finishSteps_leads (full : Bool) (w : World) :
    Leads (finishSteps E C args latest full w) w (finishFull E C args latest full w) := by
  have looked : Leads [] w (w.lookUnless args.userInitiated) := .of_eq (w.lookUnless_display _).symm
  unfold finishSteps finishFull
  split
  · simp only
    split
    · cases getLatestFullMd5Sum E (latestFullFetch E latest) with
      | none => exact looked
      | some md5 => exact looked.append (fullBuildSteps_leads ..)
    · exact looked
  · exact .refl w

/-! ### Patches -/

theorem dedelta_state (source : Option String) (delta out : String) (w : World) :
    (dedelta E source delta out w).2.state = .applyingPatch := by
  simp only [dedelta]
  split
  · rfl
  · split
    · split <;> rfl
    · rfl

theorem zipadjust_state (file out : String) (w : World) : (zipadjust E file out w).2.state = .applyingPatch := by
  simp only [zipadjust]
  split
  · rfl
  · split <;> rfl

theorem applyUpdates_state (last d : DeltaInfo) (ds : List DeltaInfo) (source : Option (Option String)) (k : Nat)
    (w : World) : (applyUpdates E last source (d :: ds) k w).2.2.state = .applyingPatch := by
  rw [applyUpdates]
  split
  · rcases (applyUpdates_native last ds none ((k + 1) % 2) _).state with same | reported
    · rw [same]
      exact dedelta_state ..
    · exact reported
  · exact dedelta_state ..

/-- With a delta to apply, a native step reports itself. -/
theorem applySteps_state (d : DeltaInfo) (ds : List DeltaInfo) (last : DeltaInfo) (initialFile : Option String)
    (needsProcessing : Bool) (w : World) :
    (applySteps E (d :: ds) last initialFile needsProcessing w).2.state = .applyingPatch := by
  have updated := applyUpdates_state (E := E) last d ds
  unfold applySteps
  cases needsProcessing with
  | true =>
    cases initialFile with
    | some file =>
      simp only
      split
      · split
        · split
          · exact dedelta_state ..
          · exact updated ..
        · exact updated ..
      · exact zipadjust_state ..
    | none =>
      simp only
      split
      · split
        · exact dedelta_state ..
        · exact updated ..
      · exact updated ..
  | false =>
    simp only
    split
    · split
      · exact dedelta_state ..
      · exact updated ..
    · exact updated ..

/-- How patches report: the native steps, and their failure. -/
theorem patch_leads {plan : Plan} (nonempty : plan.deltas ≠ []) (w : World) :
    Leads (.report .applyingPatch :: if (plan.patch E w).1 = .failed then [.report .errorUnknown] else []) w
      (plan.patch E w).2 := by
  obtain ⟨d, ds, deltas⟩ := List.exists_cons_of_ne_nil nonempty
  have prefs : (plan.patch E w).2.prefs = w.prefs := applyPatches_prefs ..
  have native := applySteps_state (E := E) d ds plan.last plan.initialFile plan.needsProcessing (w.emit .applyPatches)
  have state : (plan.patch E w).2.state =
      if (plan.patch E w).1 = .failed then .errorUnknown else .applyingPatch := by
    rw [Plan.patch, deltas]
    unfold applyPatches
    generalize applySteps E (d :: ds) plan.last plan.initialFile plan.needsProcessing (w.emit .applyPatches) = result
      at native ⊢
    obtain ⟨ended, w'⟩ := result
    cases ended with
    | done => exact native
    | failed => rfl
    | crashed => exact native
  rw [Leads, World.display, World.display, prefs, state]
  split <;> rfl

theorem storeSteps_leads (plan : Plan) (w : World) : Leads (storeSteps E plan) w (storeResult E plan w) := by
  unfold storeSteps storeResult
  cases plan.initialFile with
  | none => rfl
  | some file =>
    simp only
    split <;> rfl

theorem buildSteps_leads {plan : Plan} (nonempty : plan.deltas ≠ []) (w : World) :
    Leads (buildSteps E C args plan w) w (complete E C args latest (buildDelta E C args plan w)).world := by
  have downloaded : Leads (chainSteps E C plan.deltas plan.last args.userInitiated w) w (plan.download E C args w).2 :=
    chainSteps_leads ..
  simp only [buildSteps, buildDelta]
  refine downloaded.append ?_
  cases (plan.download E C args w).1 with
  | false => exact .refl _
  | true =>
    have patched := patch_leads (E := E) nonempty (plan.download E C args w).2
    simp only [if_true]
    generalize plan.patch E (plan.download E C args w).2 = applied at patched ⊢
    obtain ⟨ended, w'⟩ := applied
    cases ended with
    | crashed => exact patched
    | failed => exact patched
    | done =>
      have leads : Leads [.report .applyingPatch] (plan.download E C args w).2 w' := patched
      refine leads.append ?_
      refine (digestSteps_leads w' _ .applyingMd5).append ?_
      simp only [World.digesting_files]
      cases plan.verify E w'.files with
      | true =>
        simp only [if_true, complete, finishFull_false]
        exact storeSteps_leads ..
      | false => rfl

/-! ### The run -/

theorem makePlan_deltas (files : FileStore) (first : DeltaInfo) (rest : List DeltaInfo) :
    (makePlan E files first rest).deltas ≠ [] := by
  cases rest <;> exact List.cons_ne_nil _ _

theorem deltaBranchSteps_leads (first : DeltaInfo) (rest : List DeltaInfo) (w : World) :
    Leads (deltaBranchSteps E C args latest first rest w) w
      (complete E C args latest (deltaBranch E C args latest (makePlan E w.files first rest) w)).world := by
  have nonempty := makePlan_deltas (E := E) w.files first rest
  simp only [deltaBranchSteps, deltaBranch]
  refine (planDeltaSteps_leads first rest w).append ?_
  generalize makePlan E w.files first rest = plan at nonempty ⊢
  split
  · exact .refl _
  · cases C.freeSpace (planDelta E latest plan w).2.spaceReads with
    | none => exact .of_eq rfl
    | some freeSpace =>
      simp only
      split
      · rfl
      · split
        · exact (buildSteps_leads nonempty _).congr rfl rfl
        · exact (finishSteps_leads ..).congr rfl rfl

theorem fullBranchSteps_leads (reuse : Option String) (w : World) :
    Leads (fullBranchSteps E C args latest reuse w) w
      (complete E C args latest (fullBranch E args latest reuse w)).world := by
  cases reuse with
  | some f => rfl
  | none =>
    simp only [fullBranchSteps, fullBranch]
    refine (planFullSteps_leads w).append ?_
    split
    · exact .refl _
    · exact finishSteps_leads ..

theorem branchSteps_leads (ds : List DeltaInfo) (w : World) :
    Leads (branchSteps E C args latest ds w) w (complete E C args latest (branch E C args latest ds w)).world := by
  unfold branchSteps branch
  cases keptDeltas E w.files latest ds with
  | nil => exact fullBranchSteps_leads ..
  | cons first rest => exact deltaBranchSteps_leads ..

theorem searchSteps_leads (ds : List DeltaInfo) (w : World) :
    Leads (searchSteps E w.files latest ds) w (searchPastWork E latest ds w) := by
  unfold searchSteps searchPastWork
  refine (digestSteps_leads w _ .checkingMd5).append ?_
  simp only [World.digesting_files]
  cases findReusable E w.files latest ds with
  | none => exact .refl _
  | some found => rfl

/-- The steps of a run whose fetch loop ends are those of its `try` block. -/
theorem runSteps_leads {fuel : Nat} {w : World} {exit : Exit}
    (body : runBody E C args fuel (w.updateState .checking) = some exit) :
    Leads (runSteps E C args fuel w) (w.updateState .checking) exit.world := by
  have cleared : Leads clearSteps (w.updateState .checking) (start (w.updateState .checking)) := rfl
  unfold runBody at body
  refine cleared.append ?_
  cases newest : getNewestFullBuild E with
  | error state =>
    rw [newest, Option.some.injEq] at body
    rw [← body]
    rfl
  | ok latest =>
    rw [newest] at body
    obtain ⟨ds, chain, rfl⟩ := Option.map_eq_some_iff.mp body
    have named : Leads [.store (.latestFullName (some latest))] (start (w.updateState .checking))
      (startFor latest (w.updateState .checking)) := rfl
    simp only [chain]
    refine Leads.cons ?_ named
    exact (searchSteps_leads ds (startFor latest (w.updateState .checking))).append (branchSteps_leads ..)

end OpenDelta.Service
