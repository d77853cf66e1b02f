import OpenDelta.Service.Documents

/-!
# The integrity of ready files

What a run stores as ready has an MD5 the server published for it. Each of the
places that store a file checks it first; only the build deletes files between
its check and the store.
-/

namespace OpenDelta.Service

variable {E : Env} {C : Conditions} {args : Args} {latest : String}

/-- A file has an MD5 that the server published for it: with a fetched delta that
leads to the file, or in the `.md5sum` of the latest full build. -/
def Certified (E : Env) (latest : String) (ds : List DeltaInfo) (f : String) (content : Option Bytes) : Prop :=
  ∃ bytes, content = some bytes ∧
    ((∃ d ∈ ds, f = E.config.getPathBase ++ d.out.name ∧ E.md5 bytes ∈ d.out.published) ∨
      (f = latestFullPath E latest ∧ getLatestFullMd5Sum E (latestFullFetch E latest) = some (E.md5 bytes)))

/-- What a run may add to its trace: work, and ready files that are certified. -/
def Event.isCertified (E : Env) (latest : String) (ds : List DeltaInfo) : Event → Prop
  | .ready f content => Certified E latest ds f content
  | _ => True

theorem Event.isCertified_of_work {ds : List DeltaInfo} {e : Event} (work : e.isWork) : e.isCertified E latest ds := by
  cases e <;> trivial

/-- Deleting the files of the deltas in `kept` leaves the result of the last one. -/
def SparesResult (E : Env) (resolve : String → String) (kept : List DeltaInfo) : Prop :=
  ∀ last, kept.getLast? = some last →
    (∀ d ∈ kept, resolve (E.config.getPathBase ++ last.out.name) ≠ resolve (E.config.getPathBase ++ d.update.name) ∧
      resolve (E.config.getPathBase ++ last.out.name) ≠ resolve (E.config.getPathBase ++ d.signature.name)) ∧
    ∀ d ∈ kept.dropLast, resolve (E.config.getPathBase ++ last.out.name) ≠ resolve (E.config.getPathBase ++ d.out.name)

theorem cleanup_resolve (ds : List DeltaInfo) (files : FileStore) :
    (cleanup E files ds).resolve = files.resolve := by
  induction ds generalizing files with
  | nil => rfl
  | cons d ds ih =>
    rw [cleanup, ih]
    split <;> rfl

/-- The cleanup leaves other files alone. -/
theorem cleanup_read {path : String} (ds : List DeltaInfo) (files : FileStore)
    (names : ∀ d ∈ ds, files.resolve path ≠ files.resolve (E.config.getPathBase ++ d.update.name) ∧
      files.resolve path ≠ files.resolve (E.config.getPathBase ++ d.signature.name))
    (outs : ∀ d ∈ ds.dropLast, files.resolve path ≠ files.resolve (E.config.getPathBase ++ d.out.name)) :
    (cleanup E files ds).read path = files.read path := by
  induction ds generalizing files with
  | nil => rfl
  | cons d ds ih =>
    obtain ⟨update, signature⟩ := names d (List.mem_cons_self ..)
    have deltaFiles : ((files.delete (E.config.getPathBase ++ d.update.name)).delete
        (E.config.getPathBase ++ d.signature.name)).read path = files.read path :=
      (FileStore.read_delete_of_ne (s := files.delete _) signature).trans (FileStore.read_delete_of_ne update)
    cases ds with
    | nil => exact deltaFiles
    | cons d' ds =>
      rw [List.dropLast_cons_cons] at outs
      have out := outs d (List.mem_cons_self ..)
      show (cleanup E (((files.delete (E.config.getPathBase ++ d.update.name)).delete
        (E.config.getPathBase ++ d.signature.name)).delete (E.config.getPathBase ++ d.out.name)) (d' :: ds)).read path =
          files.read path
      rw [ih]
      · exact (FileStore.read_delete_of_ne (s := (files.delete _).delete _) out).trans deltaFiles
      · exact fun d member => names d (List.mem_cons_of_mem _ member)
      · exact fun d member => outs d (List.mem_cons_of_mem _ member)

/-- The result of a build survives the cleanup, unless it shares a file with what
the cleanup deletes. -/
theorem makePlan_cleanup {files files' : FileStore} {first : DeltaInfo} {rest : List DeltaInfo}
    (spares : SparesResult E files'.resolve (first :: rest)) :
    (cleanup E files' (makePlan E files first rest).deltas).read (makePlan E files first rest).flashFilename =
      files'.read (makePlan E files first rest).flashFilename := by
  obtain ⟨last, isLast, -, same⟩ := makePlan_last E files first rest
  obtain ⟨names, outs⟩ := spares last isLast
  have path : (makePlan E files first rest).flashFilename = E.config.getPathBase ++ last.out.name := by
    rw [← DeltaInfo.out_of_untagged same]
    rfl
  rw [path]
  apply cleanup_read
  · intro d member
    obtain ⟨d₀, inside, untagged⟩ := mem_tagDeltas member
    rw [DeltaInfo.updateName_of_untagged untagged, DeltaInfo.signatureName_of_untagged untagged]
    exact names d₀ inside
  · intro d member
    obtain ⟨d₀, inside, untagged⟩ := mem_dropLast_tagDeltas member
    rw [DeltaInfo.out_of_untagged untagged]
    exact outs d₀ inside

/-- A build stores a ZIP that its last delta certifies. -/
theorem BuildExit.certified {files : FileStore} {first : DeltaInfo} {rest ds : List DeltaInfo} {w : World} {exit : Exit}
    (build : BuildExit E C args (makePlan E files first rest) w exit) (kept : ∀ d ∈ first :: rest, d ∈ ds)
    (spares : Built E C args (makePlan E files first rest) w → SparesResult E w.files.resolve (first :: rest)) :
    Emits (Event.isCertified E latest ds) w (complete E C args latest exit).world := by
  have worked : ∀ w', Emits Event.isWork (w.emit .downloadFiles) w' → Emits (Event.isCertified E latest ds) w w' :=
    fun w' emits => (Emits.emit w trivial).trans (emits.weaken fun e => Event.isCertified_of_work)
  cases build with
  | stopped w' _ _ emits => exact worked w' emits
  | crashed w' _ _ emits => exact worked w' emits
  | failed w' _ _ emits => exact worked w' emits
  | stored w' built _ emits _ _ verified =>
    have resolve := (worked w' emits).resolve
    obtain ⟨last, isLast, -, same⟩ := makePlan_last E files first rest
    obtain ⟨kind, found⟩ := Option.isSome_iff_exists.mp verified
    obtain ⟨bytes, read, published⟩ := FileFull.matchFile_md5 found
    refine (worked w' emits).trans (.event (.ready (makePlan E files first rest).flashFilename (some bytes)) ?_ ?_ ?_)
    · refine ⟨bytes, rfl, .inl ⟨last, kept last (List.mem_of_getLast? isLast), ?_, ?_⟩⟩
      · rw [← DeltaInfo.out_of_untagged same]
        rfl
      · rw [← DeltaInfo.out_of_untagged same]
        exact published
    · simp only [complete, finishFull_false, Exit.world, storeResult, World.setReady_files, World.setPrefs_files]
      exact cleanup_resolve ..
    · simp only [complete, finishFull_false, Exit.world, storeResult, World.setReady_trace, World.setPrefs_files,
        World.setPrefs_trace]
      rw [makePlan_cleanup (resolve ▸ spares built), read]

variable (C args) in
/-- The branches store certified ZIPs only. -/
theorem branch_certified {ds : List DeltaInfo} {w : World} (sound : w.state.isErrorState = false)
    (spares : ∀ first rest, keptDeltas E w.files latest ds = first :: rest →
      PlannedChain E C args latest (makePlan E w.files first rest) w → SparesResult E w.files.resolve (first :: rest)) :
    Emits (Event.isCertified E latest ds) w (complete E C args latest (branch E C args latest ds w)).world := by
  have full : ∀ bytes, getLatestFullMd5Sum E (latestFullFetch E latest) = some (E.md5 bytes) →
      Event.isCertified E latest ds (.ready (latestFullPath E latest) (some bytes)) :=
    fun bytes published => ⟨bytes, rfl, .inr ⟨rfl, published⟩⟩
  unfold branch
  cases kept : keptDeltas E w.files latest ds with
  | nil =>
    refine fullBranch_emits trivial full sound fun f reuse => ?_
    -- A reusable ZIP matches the delta that leads to it.
    obtain ⟨found, isFound, rfl⟩ := Option.map_eq_some_iff.mp reuse
    obtain ⟨reusable, before, split⟩ := findReusable_some isFound
    rw [Service.reusable, Bool.and_eq_true] at reusable
    obtain ⟨kind, matched⟩ := Option.isSome_iff_exists.mp reusable.1
    obtain ⟨bytes, read, published⟩ := FileFull.matchFile_md5 matched
    refine ⟨bytes, read, .inl ⟨found.1, ?_, rfl, published⟩⟩
    rw [split]
    exact List.mem_append_right _ (List.mem_cons_self ..)
  | cons first rest =>
    refine deltaBranch_emits trivial full fun starts exit build => build.certified ?_ ?_
    · intro d member
      exact (keptDeltas_sublist ..).subset (kept ▸ member)
    · intro built
      have planned := (planDelta_planned (E := E) latest (makePlan E w.files first rest) w).files
      rw [planWorld, World.lookAtSpace_files, planned]
      exact spares first rest kept ⟨starts, built⟩

/-- A delta whose signature file is named like the ZIP it leads to. -/
def clashingDelta : DeltaInfo :=
  { sampleDelta with signature := { sampleDelta.signature with name := "omni-b.zip" } }

def clashingServer : Published :=
  sampleServer [("d/omni-a.delta", clashingDelta)] ["omni-b.zip"] [("u/omni-a.update", [2])]

theorem clashingServer_newest : getNewestFullBuild clashingServer.env = .ok "omni-b.zip" :=
  Published.Lists.newest clashingServer ["omni-b.zip"]
    ⟨rfl, rfl, by decide, by decide⟩ (by decide)

set_option maxRecDepth 4000

theorem clashingServer_fetched : fetched clashingServer.env 2 = some [clashingDelta] :=
  Published.fetched_one clashingServer "d/omni-a.delta" clashingDelta (by decide)
    ⟨rfl, by decide, by decide, by decide⟩ ⟨rfl, rfl, rfl, rfl⟩ rfl (by decide)
    (by decide)

end OpenDelta.Service
