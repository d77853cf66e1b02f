import OpenDelta.Service.Newest
import OpenDelta.Service.Requests

/-!
# Downloads without the user

A run the user has not asked for downloads what the setting allows, and looks at
the network before each file. In front of a delta file that look is the last
thing it does; in front of a full ZIP it still waits for the `.md5sum`.
-/

namespace OpenDelta.Service

variable {E : Env} {C : Conditions} {args : Args} {latest : String}

/-! ## Transfers -/

/-- A request whose body goes to a file. -/
def Event.transfer? : Event → Option (String × String)
  | .transfer url file => some (url, file)
  | _ => none

/-- The downloads to files so far. -/
def World.transfers (w : World) : List (String × String) := w.trace.filterMap Event.transfer?

/-- A step that starts no download. -/
theorem Emits.transfers {P : Event → Prop} {w w' : World} (emits : Emits P w w')
    (quiet : ∀ e, P e → e.transfer? = none) : w'.transfers = w.transfers := by
  obtain ⟨more, grown, all⟩ := emits.trace
  rw [World.transfers, grown, List.filterMap_append, List.filterMap_eq_nil_iff.mpr fun e member => quiet e (all e member),
    List.append_nil, World.transfers]

theorem Event.transfer?_of_notice {e : Event} (notice : e.isNotice) : e.transfer? = none := by
  cases e <;> first | rfl | cases notice

/-- A download that is started: what the last look at the network before it was,
and how many answers of servers the run has waited for since. -/
structure Start where
  url : String
  file : String
  full : Bool
  look : Nat
  waits : Nat

def Start.target (s : Start) : String × String := (s.url, s.file)

section Starts

variable (E C)

/-- The start of `downloadDeltaFile`. -/
def deltaStarts (name : String) (tag : Option String) (force : Bool) (w : World) : List Start :=
  if tag.isNone && (force || C.networkState w.networkReads) then
    [{ url := E.config.urlBaseUpdate ++ name, file := E.config.getPathBase ++ name, full := false
       look := w.networkReads, waits := 0 }]
  else []

/-- The starts of `downloadUpdates`. -/
def updateStarts (force : Bool) : List DeltaInfo → World → List Start
  | [], _ => []
  | d :: ds, w =>
    let result := downloadDeltaFile E C E.config.urlBaseUpdate d.update.name d.update.tag d.update.update.md5 force w
    deltaStarts E C d.update.name d.update.tag force w ++ if result.1 then updateStarts force ds result.2 else []

/-- The starts of `downloadFiles`. -/
def chainStarts (deltas : List DeltaInfo) (last : DeltaInfo) (force : Bool) (w : World) : List Start :=
  let w := (w.emit .downloadFiles).updateState .downloading
  let updates := downloadUpdates E C force deltas w
  updateStarts E C force deltas w ++
    if updates.1 && E.config.applySignature then
      deltaStarts E C last.signature.name last.signature.tag force updates.2
    else []

/-- The start of the full download: the answer for the `.md5sum` has been waited for. -/
def fullStarts (args : Args) (latestFullBuild : String) (downloadFull : Bool) (w : World) : List Start :=
  if downloadFull = true ∧ args.checkOnly = autoDownloadFull ∧
      (args.userInitiated || C.networkState w.networkReads) = true ∧
      (getLatestFullMd5Sum E (latestFullFetch E latestFullBuild)).isSome = true then
    [{ url := latestFullFetch E latestFullBuild, file := latestFullPath E latestFullBuild, full := true
       look := w.networkReads, waits := 1 }]
  else []

/-- The starts of the delta branch and of what follows it. -/
def deltaBranchStarts (args : Args) (latestFullBuild : String) (plan : Plan) (w : World) : List Start :=
  let planned := planDelta E latestFullBuild plan w
  if args.checkOnly = autoDownloadCheck then []
  else
    match C.freeSpace planned.2.spaceReads with
    | none => []
    | some freeSpace =>
      let w := planned.2.lookAtSpace
      if freeSpace < getRequiredSpace E plan.deltas plan.last planned.1 then []
      else if !planned.1 ∧ autoDownloadCheck < args.checkOnly then
        chainStarts E C plan.deltas plan.last args.userInitiated w
      else fullStarts E C args latestFullBuild planned.1 w

/-- The starts of the branch without deltas and of what follows it. -/
def fullBranchStarts (args : Args) (latestFullBuild : String) (reuse : Option String) (w : World) : List Start :=
  match reuse with
  | some _ => []
  | none =>
    let planned := planFull E latestFullBuild w
    if args.checkOnly = autoDownloadCheck then [] else fullStarts E C args latestFullBuild planned.1 planned.2

def branchStarts (args : Args) (latestFullBuild : String) (deltas : List DeltaInfo) (w : World) : List Start :=
  match keptDeltas E w.files latestFullBuild deltas with
  | [] =>
    fullBranchStarts E C args latestFullBuild
      ((findReusable E w.files latestFullBuild deltas).map fun found => E.config.getPathBase ++ found.1.out.name) w
  | first :: rest => deltaBranchStarts E C args latestFullBuild (makePlan E w.files first rest) w

/-- The downloads a run starts. -/
def runStarts (args : Args) (fuel : Nat) (w : World) : List Start :=
  match getNewestFullBuild E, fetched E fuel with
  | .ok latest, some ds => branchStarts E C args latest ds (searched E latest ds w)
  | _, _ => []

end Starts

/-! ## The starts are the transfers -/

theorem downloadUrlFile_transfers (url path md5 : String) (w : World) :
    (downloadUrlFile E C url path md5 w).2.transfers = w.transfers :=
  Emits.transfers (P := fun _ => False) (downloadUrlFile_emits ..) fun _ none => none.elim

theorem World.transfers_emit (w : World) (url file : String) :
    (w.emit (.transfer url file)).transfers = w.transfers ++ [(url, file)] := by
  simp [World.transfers, Event.transfer?, List.filterMap_append]

theorem World.lookUnless_transfers (force : Bool) (w : World) : (w.lookUnless force).transfers = w.transfers :=
  Emits.transfers (P := fun _ => False) (w.lookUnless_emits force) fun _ none => none.elim

theorem downloadDeltaFile_transfers (name : String) (tag : Option String) (md5 : String) (force : Bool) (w : World) :
    (downloadDeltaFile E C E.config.urlBaseUpdate name tag md5 force w).2.transfers =
      w.transfers ++ (deltaStarts E C name tag force w).map Start.target := by
  cases tag with
  | some fn =>
    rw [deltaStarts, downloadDeltaFile]
    exact (List.append_nil _).symm
  | none =>
    simp only [downloadDeltaFile, deltaStarts, Option.isNone_none, Bool.true_and]
    by_cases allowed : (force || C.networkState w.networkReads) = true
    · rw [if_pos allowed, if_pos allowed]
      have started := downloadUrlFile_transfers (E := E) (C := C) (E.config.urlBaseUpdate ++ name)
        (E.config.getPathBase ++ name) md5 ((w.lookUnless force).emit
          (.transfer (E.config.urlBaseUpdate ++ name) (E.config.getPathBase ++ name)))
      rw [World.transfers_emit, World.lookUnless_transfers] at started
      refine Eq.trans ?_ started
      split
      · rfl
      · split <;> rfl
    · rw [if_neg allowed, if_neg allowed, World.lookUnless_transfers]
      exact (List.append_nil _).symm

theorem downloadUpdates_transfers (force : Bool) (ds : List DeltaInfo) (w : World) :
    (downloadUpdates E C force ds w).2.transfers = w.transfers ++ (updateStarts E C force ds w).map Start.target := by
  induction ds generalizing w with
  | nil => exact (List.append_nil _).symm
  | cons d ds ih =>
    have first := downloadDeltaFile_transfers (E := E) (C := C) d.update.name d.update.tag d.update.update.md5 force w
    simp only [downloadUpdates, updateStarts, List.map_append]
    split
    · rw [ih, first, List.append_assoc]
    · rw [first, List.map_nil, List.append_nil]

theorem downloadFiles_transfers (ds : List DeltaInfo) (last : DeltaInfo) (force : Bool) (w : World) :
    (downloadFiles E C ds last force w).2.transfers =
      w.transfers ++ (chainStarts E C ds last force w).map Start.target := by
  have begun : ((w.emit .downloadFiles).updateState .downloading).transfers = w.transfers := by
    simp [World.transfers, Event.transfer?, List.filterMap_append]
  have updates := downloadUpdates_transfers (E := E) (C := C) force ds ((w.emit .downloadFiles).updateState .downloading)
  rw [begun] at updates
  simp only [downloadFiles, chainStarts, List.map_append]
  cases ok : (downloadUpdates E C force ds ((w.emit .downloadFiles).updateState .downloading)).1 with
  | false =>
    rw [if_neg Bool.false_ne_true, updates]
    simp
  | true =>
    rw [if_pos rfl, Bool.true_and]
    by_cases signed : E.config.applySignature = true
    · rw [if_pos signed, if_pos signed]
      have signature := downloadDeltaFile_transfers (E := E) (C := C) last.signature.name last.signature.tag
        last.signature.update.md5 force
        (downloadUpdates E C force ds ((w.emit .downloadFiles).updateState .downloading)).2
      rw [updates, List.append_assoc] at signature
      refine Eq.trans ?_ signature
      split <;> rfl
    · rw [if_neg signed, if_neg signed, if_pos rfl]
      refine Eq.trans updates ?_
      simp

theorem downloadFullBuild_transfers (url md5 name : String) (w : World) :
    (downloadFullBuild E C url md5 name w).transfers = w.transfers ++ [(url, E.config.getPathBase ++ name)] := by
  have started := Emits.transfers (P := fun _ => False) (downloadUrlFileUnknownSize_emits (E := E) (C := C) url
    (E.config.getPathBase ++ name) md5 (w.emit (.transfer url (E.config.getPathBase ++ name)))) fun _ none => none.elim
  rw [World.transfers_emit] at started
  rw [← started]
  simp only [downloadFullBuild]
  split
  · simp [World.transfers, Event.transfer?, List.filterMap_append]
  · split <;> rfl

theorem finishFull_transfers (full : Bool) (w : World) :
    (finishFull E C args latest full w).transfers =
      w.transfers ++ (fullStarts E C args latest full w).map Start.target := by
  have none : w.transfers = w.transfers ++ [] := (List.append_nil _).symm
  simp only [finishFull, fullStarts]
  by_cases wanted : full = true ∧ args.checkOnly = autoDownloadFull
  swap
  · rw [if_neg wanted, if_neg fun all => wanted ⟨all.1, all.2.1⟩]
    exact none
  rw [if_pos wanted]
  by_cases allowed : (args.userInitiated || C.networkState w.networkReads) = true
  swap
  · rw [if_neg allowed, if_neg fun all => allowed all.2.2.1, World.lookUnless_transfers]
    exact none
  rw [if_pos allowed]
  cases published : getLatestFullMd5Sum E (latestFullFetch E latest) with
  | none =>
    rw [if_neg (by simp), World.lookUnless_transfers]
    exact none
  | some md5 =>
    rw [if_pos ⟨wanted.1, wanted.2, allowed, rfl⟩, downloadFullBuild_transfers, World.lookUnless_transfers]
    rfl

theorem buildDelta_transfers (plan : Plan) (w : World) :
    (complete E C args latest (buildDelta E C args plan w)).world.transfers =
      w.transfers ++ (chainStarts E C plan.deltas plan.last args.userInitiated w).map Start.target := by
  have downloaded : (plan.download E C args w).2.transfers = _ := downloadFiles_transfers ..
  have patched : (plan.patch E (plan.download E C args w).2).2.transfers = (plan.download E C args w).2.transfers := by
    rw [World.transfers, Plan.patch, applyPatches_trace]
    simp [Event.transfer?, World.transfers, List.filterMap_append]
  rw [← downloaded]
  simp only [buildDelta]
  split
  · split
    · exact patched
    · exact patched
    · split
      · simp only [complete, finishFull_false, Exit.world]
        rw [← patched]
        simp [World.transfers, storeResult, Event.transfer?, List.filterMap_append]
      · simp only [complete, Exit.world]
        rw [← patched]
        simp [World.transfers]
  · rfl

theorem Planned.transfers {wants : Bool} {w : World} {r : Bool × World} (planned : Planned E latest wants w r) :
    r.2.transfers = w.transfers :=
  Emits.transfers (P := fun e => e.transfer? = none) (planned.emits fun _ _ => rfl) fun _ quiet => quiet

theorem deltaBranch_transfers (plan : Plan) (w : World) :
    (complete E C args latest (deltaBranch E C args latest plan w)).world.transfers =
      w.transfers ++ (deltaBranchStarts E C args latest plan w).map Start.target := by
  have planned := (planDelta_planned (E := E) latest plan w).transfers
  rw [← planned]
  simp only [deltaBranch, deltaBranchStarts]
  split
  · exact (List.append_nil _).symm
  · cases C.freeSpace (planDelta E latest plan w).2.spaceReads with
    | none => exact (List.append_nil _).symm
    | some freeSpace =>
      simp only
      split
      · exact (List.append_nil _).symm
      · split
        · exact buildDelta_transfers plan _
        · exact finishFull_transfers _ _

theorem fullBranch_transfers {reuse : Option String} {w : World} (sound : w.state.isErrorState = false) :
    (complete E C args latest (fullBranch E args latest reuse w)).world.transfers =
      w.transfers ++ (fullBranchStarts E C args latest reuse w).map Start.target := by
  cases reuse with
  | some f => simp [fullBranch, fullBranchStarts, complete, Exit.world, World.transfers, Event.transfer?]
  | none =>
    have planned := (planFull_planned E latest sound).transfers
    rw [← planned]
    simp only [fullBranch, fullBranchStarts]
    split
    · exact (List.append_nil _).symm
    · exact finishFull_transfers _ _

/-- **What a run downloads to files** is what it starts. -/
theorem run_transfers {fuel : Nat} {w : World} {ending : Ending}
    (run : checkForUpdatesAsync E C args fuel w = some ending) :
    ending.world.transfers = w.transfers ++ (runStarts E C args fuel w).map Start.target := by
  rcases checkForUpdatesAsync_cases run with ⟨state, failed, rfl⟩ | ⟨latest, ds, newest, chain, rfl⟩
  · rw [(settle_emits E C args _).transfers fun _ notice => Event.transfer?_of_notice notice, runStarts, failed]
    exact (List.append_nil _).symm
  · rw [(settle_emits E C args _).transfers fun _ notice => Event.transfer?_of_notice notice]
    have before : (searched E latest ds w).transfers = w.transfers := by
      rw [World.transfers, searched_trace, World.transfers]
    rw [← before, runStarts, newest, chain]
    simp only [branch, branchStarts]
    cases keptDeltas E (searched E latest ds w).files latest ds with
    | nil => exact fullBranch_transfers (searched_sound ds w)
    | cons first rest => exact deltaBranch_transfers _ _

/-! ## What allows a start -/

theorem checkForUpdates_allowed {L : Listeners} {args args' : Args} {w : World}
    (posted : (checkForUpdates L args w).1 = some args') : L.allowed args = some args' := by
  unfold checkForUpdates at posted
  repeat' split at posted
  all_goals first
    | cases posted
      assumption
    | cases posted

/-- More than a check is left of the setting only where all conditions hold. -/
theorem Listeners.allowed_above {L : Listeners} {autoDownload : Int} {args : Args}
    (allowed : L.allowed ⟨false, autoDownload⟩ = some args) (above : autoDownloadCheck < args.checkOnly) :
    args = ⟨false, autoDownload⟩ ∧ (L.networkState && L.batteryState && L.isScreenStateEnabled) = true := by
  rw [Listeners.allowed, if_neg Bool.false_ne_true] at allowed
  split at allowed
  · split at allowed
    · cases allowed
      exact ⟨rfl, ‹_›⟩
    · cases allowed
      exact absurd above (Int.lt_irrefl _)
  · split at allowed
    · cases allowed
      exact absurd above ‹_›
    · cases allowed

theorem Listeners.allowed_automatic {L : Listeners} {autoDownload : Int} {args : Args}
    (allowed : L.allowed ⟨false, autoDownload⟩ = some args) : args.userInitiated = false := by
  rw [Listeners.allowed, if_neg Bool.false_ne_true] at allowed
  repeat' split at allowed
  all_goals cases allowed
  all_goals rfl

/-- No answer is waited for between the look at the network and the start of a delta file. -/
structure Start.Looked (C : Conditions) (s : Start) : Prop where
  delta : s.full = false
  waits : s.waits = 0
  connected : C.networkState s.look = true

theorem deltaStarts_looked {name : String} {tag : Option String} {w : World} :
    ∀ s ∈ deltaStarts E C name tag false w, s.Looked C := by
  intro s member
  rw [deltaStarts] at member
  split at member
  · rename_i allowed
    rw [Bool.false_or, Bool.and_eq_true] at allowed
    cases List.mem_singleton.mp member
    exact ⟨rfl, rfl, allowed.2⟩
  · cases member

theorem updateStarts_looked {ds : List DeltaInfo} {w : World} : ∀ s ∈ updateStarts E C false ds w, s.Looked C := by
  induction ds generalizing w with
  | nil => intro s member; cases member
  | cons d ds ih =>
    intro s member
    rw [updateStarts] at member
    rcases List.mem_append.mp member with first | later
    · exact deltaStarts_looked s first
    · split at later
      · exact ih s later
      · cases later

theorem chainStarts_looked {ds : List DeltaInfo} {last : DeltaInfo} {w : World} :
    ∀ s ∈ chainStarts E C ds last false w, s.Looked C := by
  intro s member
  rw [chainStarts] at member
  rcases List.mem_append.mp member with update | signature
  · exact updateStarts_looked s update
  · split at signature
    · exact deltaStarts_looked s signature
    · cases signature

/-! ## The full download -/

theorem World.digesting_networkReads (w : World) (c : Bool) (s : ServiceState) :
    (w.digesting c s).networkReads = w.networkReads := by
  cases c <;> rfl

theorem takeFullBuild_networkReads (wants : Bool) (w : World) :
    (takeFullBuild E latest wants w).2.networkReads = w.networkReads := by
  rcases takeFullBuild_eq E latest wants w with ⟨-, eq⟩ | ⟨-, c, eq⟩
  · rw [eq]
    rfl
  · rw [eq]
    exact World.digesting_networkReads ..

theorem planFull_networkReads (w : World) : (planFull E latest w).2.networkReads = w.networkReads := by
  unfold planFull
  simp only
  split <;> exact takeFullBuild_networkReads ..

theorem planDelta_networkReads (plan : Plan) (w : World) :
    (planDelta E latest plan w).2.networkReads = w.networkReads := by
  unfold planDelta
  simp only
  repeat' split
  all_goals exact takeFullBuild_networkReads ..

variable (E latest) in
theorem searched_networkReads (ds : List DeltaInfo) (w : World) : (searched E latest ds w).networkReads = 0 := by
  unfold searched searchPastWork
  simp only
  split <;> exact World.digesting_networkReads ..

/-- The run goes on to the full ZIP: without deltas, or because they are too much. -/
inductive GoesOnFull (E : Env) (C : Conditions) (latest : String) (ds : List DeltaInfo) (w : World) : Prop
  | single (kept : keptDeltas E w.files latest ds = []) (fresh : findReusable E w.files latest ds = none)
      (newer : isNewer E latest = true) (unverified : fullVerified E w.files latest = false)
  | planned (first : DeltaInfo) (rest : List DeltaInfo) (kept : keptDeltas E w.files latest ds = first :: rest)
      (wants : (makePlan E w.files first rest).wantsFull E latest = true)
      (unverified : fullVerified E w.files latest = false)
      (space : EnoughSpace E C (makePlan E w.files first rest) true w)

/-- The run requests the full ZIP: the first look at the network allows it, and
the `.md5sum` comes. -/
structure RequestsFull (E : Env) (C : Conditions) (args : Args) (fuel : Nat) (w : World) (latest : String)
    (ds : List DeltaInfo) : Prop where
  newest : getNewestFullBuild E = .ok latest
  chain : fetched E fuel = some ds
  mode : args.checkOnly = autoDownloadFull
  connected : C.networkState 0 = true
  published : (getLatestFullMd5Sum E (latestFullFetch E latest)).isSome = true
  goesOn : GoesOnFull E C latest ds (searched E latest ds w)

theorem mem_fullStarts {s : Start} {full : Bool} {w : World} (automatic : args.userInitiated = false)
    (member : s ∈ fullStarts E C args latest full w) :
    full = true ∧ args.checkOnly = autoDownloadFull ∧ C.networkState w.networkReads = true ∧
      (getLatestFullMd5Sum E (latestFullFetch E latest)).isSome = true ∧
      s.full = true ∧ s.look = w.networkReads ∧ s.waits = 1 := by
  rw [fullStarts] at member
  split at member
  · rename_i all
    rw [automatic, Bool.false_or] at all
    cases List.mem_singleton.mp member
    exact ⟨all.1, all.2.1, all.2.2.1, all.2.2.2, rfl, rfl, rfl⟩
  · cases member

/-- **What a run starts** without the user: delta files right behind a look at the
network, or the full ZIP. -/
theorem mem_runStarts {fuel : Nat} {w : World} {s : Start} (automatic : args.userInitiated = false)
    (member : s ∈ runStarts E C args fuel w) :
    autoDownloadCheck < args.checkOnly ∧ s.Looked C ∨
      ∃ latest ds, RequestsFull E C args fuel w latest ds ∧ s.full = true ∧ s.look = 0 ∧ s.waits = 1 := by
  rw [runStarts] at member
  cases newest : getNewestFullBuild E with
  | error state =>
    rw [newest] at member
    cases member
  | ok latest =>
    cases chain : fetched E fuel with
    | none =>
      rw [newest, chain] at member
      cases member
    | some ds =>
      rw [newest, chain] at member
      have reads := searched_networkReads E latest ds w
      have sound : (searched E latest ds w).state.isErrorState = false := searched_sound ds w
      simp only [branchStarts] at member
      cases kept : keptDeltas E (searched E latest ds w).files latest ds with
      | nil =>
        rw [kept] at member
        cases fresh : findReusable E (searched E latest ds w).files latest ds with
        | some found =>
          rw [fresh] at member
          cases member
        | none =>
          rw [fresh] at member
          simp only [Option.map_none, fullBranchStarts] at member
          split at member
          · cases member
          · obtain ⟨full, mode, connected, published, kind, look, waits⟩ := mem_fullStarts automatic member
            have planned := planFull_planned E latest sound
            rw [planned.flag, Bool.and_eq_true, Bool.not_eq_true'] at full
            rw [planFull_networkReads, reads] at connected look
            exact .inr ⟨latest, ds, ⟨newest, chain, mode, connected, published, .single kept fresh full.1 full.2⟩,
              kind, look, waits⟩
      | cons first rest =>
        rw [kept] at member
        have planned := planDelta_planned (E := E) latest (makePlan E (searched E latest ds w).files first rest)
          (searched E latest ds w)
        simp only [deltaBranchStarts] at member
        split at member
        · cases member
        cases space : C.freeSpace (planDelta E latest (makePlan E (searched E latest ds w).files first rest)
            (searched E latest ds w)).2.spaceReads with
        | none =>
          rw [space] at member
          cases member
        | some freeSpace =>
          rw [space] at member
          simp only at member
          split at member
          · cases member
          rename_i enough
          split at member
          · rename_i builds
            rw [automatic] at member
            exact .inl ⟨builds.2, chainStarts_looked s member⟩
          · obtain ⟨full, mode, connected, published, kind, look, waits⟩ := mem_fullStarts automatic member
            rw [full] at enough
            rw [planned.flag, Bool.and_eq_true, Bool.not_eq_true'] at full
            rw [planned.spaceReads] at space
            have unread : (World.lookAtSpace (planDelta E latest
                (makePlan E (searched E latest ds w).files first rest) (searched E latest ds w)).2).networkReads = 0 :=
              (planDelta_networkReads ..).trans reads
            rw [unread] at connected look
            exact .inr ⟨latest, ds, ⟨newest, chain, mode, connected, published,
              .planned first rest kept full.1 full.2 ⟨freeSpace, space, enough⟩⟩, kind, look, waits⟩

/-- A run that requests the full ZIP starts its download behind one answer. -/
theorem RequestsFull.starts {fuel : Nat} {w : World} {latest : String} {ds : List DeltaInfo}
    (requests : RequestsFull E C args fuel w latest ds) :
    ∃ s ∈ runStarts E C args fuel w, s.look = 0 ∧ s.waits = 1 := by
  obtain ⟨newest, chain, mode, connected, published, goesOn⟩ := requests
  have reads := searched_networkReads E latest ds w
  have full : ∀ w', w'.networkReads = 0 →
      ∃ s ∈ fullStarts E C args latest true w', s.look = 0 ∧ s.waits = 1 := by
    intro w' unread
    rw [fullStarts, if_pos ⟨rfl, mode, by rw [unread, connected, Bool.or_true], published⟩]
    exact ⟨_, List.mem_singleton_self _, unread, rfl⟩
  have notCheck : ¬ args.checkOnly = autoDownloadCheck := by
    rw [mode]
    decide
  rw [runStarts, newest, chain]
  simp only [branchStarts]
  cases goesOn with
  | single kept fresh newer unverified =>
    have sound : (searched E latest ds w).state.isErrorState = false := searched_sound ds w
    have planned := planFull_planned E latest sound
    rw [kept, fresh]
    simp only [Option.map_none, fullBranchStarts]
    rw [if_neg notCheck, planned.flag, newer, unverified]
    exact full _ ((planFull_networkReads _).trans reads)
  | planned first rest kept wants unverified space =>
    have planned := planDelta_planned (E := E) latest (makePlan E (searched E latest ds w).files first rest)
      (searched E latest ds w)
    obtain ⟨freeSpace, readable, enough⟩ := space
    rw [kept]
    simp only [deltaBranchStarts]
    rw [if_neg notCheck, planned.spaceReads, readable]
    simp only
    rw [planned.flag, wants, unverified, Bool.not_false, Bool.and_true, if_neg enough, if_neg (by simp)]
    exact full _ ((planDelta_networkReads _ _).trans reads)

/-! ## Metered connections -/

/-- The state of the network as the run goes on: after the `n`-th look at it and
`m` answers of servers. -/
structure Network (C : Conditions) where
  state : Nat → Nat → Bool
  looks : ∀ n, state n 0 = C.networkState n

/-- A download the user has not asked for starts as the setting and the
conditions at the request allow, and while the network is of the wanted kind. -/
structure Metered (N : Network C) (L : Listeners) (autoDownload : Int) (s : Start) : Prop where
  setting : autoDownloadCheck < autoDownload
  conditions : (L.networkState && L.batteryState && L.isScreenStateEnabled) = true
  connected : N.state s.look s.waits = true
  full : s.full = true → autoDownload = autoDownloadFull

/-- **Metered connections are left alone** exactly in the runs that do not wait for
the `.md5sum` of a full ZIP until the network has changed. -/
theorem metered_iff {L : Listeners} {autoDownload : Int} {w₀ : World}
    (posted : (checkForUpdates L ⟨false, autoDownload⟩ w₀).1 = some args) (N : Network C) (fuel : Nat) (w : World) :
    (∀ s ∈ runStarts E C args fuel w, Metered N L autoDownload s) ↔
      ∀ latest ds, RequestsFull E C args fuel w latest ds → N.state 0 1 = true := by
  have allowed := checkForUpdates_allowed posted
  constructor
  · intro metered latest ds requests
    obtain ⟨s, member, look, waits⟩ := requests.starts
    rw [← look, ← waits]
    exact (metered s member).connected
  · intro steady s member
    have automatic : args.userInitiated = false := Listeners.allowed_automatic allowed
    rcases mem_runStarts automatic member with ⟨above, looked⟩ | ⟨latest, ds, requests, kind, look, waits⟩
    · obtain ⟨rfl, conditions⟩ := Listeners.allowed_above allowed above
      refine ⟨above, conditions, ?_, fun full => ?_⟩
      · rw [looked.waits, N.looks]
        exact looked.connected
      · cases looked.delta.symm.trans full
    · have above : autoDownloadCheck < args.checkOnly := by
        rw [requests.mode]
        decide
      obtain ⟨rfl, conditions⟩ := Listeners.allowed_above allowed above
      refine ⟨above, conditions, ?_, fun _ => requests.mode⟩
      rw [look, waits]
      exact steady latest ds requests

/-! ### A network that goes while the run waits -/

/-- A network that stays. -/
def steadyNetwork : Network .calm where
  state _ _ := true
  looks _ := rfl

/-- A network that is gone with the first answer. -/
def leavingNetwork : Network .calm where
  state _ waits := decide (waits = 0)
  looks _ := rfl

/-- Every listener grants the download, and the network stays. -/
theorem metered_current :
    (checkForUpdates Threads.allGranted ⟨false, autoDownloadFull⟩ (.idle [])).1 =
      some ⟨false, autoDownloadFull⟩ ∧
    ∀ s ∈ runStarts currentServer.env .calm ⟨false, autoDownloadFull⟩ 2 currentWorld,
      Metered steadyNetwork Threads.allGranted autoDownloadFull s :=
  ⟨rfl, (metered_iff (show (checkForUpdates Threads.allGranted ⟨false, autoDownloadFull⟩ (.idle [])).1 =
    some ⟨false, autoDownloadFull⟩ from rfl) steadyNetwork 2 currentWorld).mpr fun _ _ _ => rfl⟩

/-- The ZIP of `omni-c` is downloaded over whatever the network has changed to. -/
theorem metered_leaving :
    (checkForUpdates Threads.allGranted ⟨false, autoDownloadFull⟩ (.idle [])).1 =
      some ⟨false, autoDownloadFull⟩ ∧
    ¬ ∀ s ∈ runStarts outrunServer.env .calm ⟨false, autoDownloadFull⟩ 2 (.idle []),
      Metered leavingNetwork Threads.allGranted autoDownloadFull s := by
  have posted : (checkForUpdates Threads.allGranted ⟨false, autoDownloadFull⟩ (.idle [])).1 =
      some ⟨false, autoDownloadFull⟩ := rfl
  refine ⟨posted, fun metered => ?_⟩
  have kept : keptDeltas outrunServer.env (searched outrunServer.env "omni-c.zip" [sampleDelta] (.idle [])).files
      "omni-c.zip" [sampleDelta] = [sampleDelta] := by decide
  have requests : RequestsFull outrunServer.env .calm ⟨false, autoDownloadFull⟩ 2 (.idle []) "omni-c.zip"
      [sampleDelta] := by
    refine ⟨outrunServer_newest, outrunServer_fetched, rfl, rfl, by decide, ?_⟩
    exact .planned _ _ kept (by decide) (by decide) ⟨100000000, rfl, by decide⟩
  exact absurd ((metered_iff posted leavingNetwork 2 (.idle [])).mp metered _ _ requests) (by decide)

end OpenDelta.Service
