import OpenDelta.Service.Operations
import OpenDelta.Service.Relay

/-!
# What a build leaves

The file under a path when a build is over: by its MD5 after downloads, which may
not all come; gone where the native code crashed on it; and what the deltas
decode to where the build goes through.
-/

namespace OpenDelta.Service

variable (E : Env) (C : Conditions)

/-! ## Downloads -/

/-- `downloadDeltaFile`, for a file of a delta. -/
def fetchFile (force : Bool) (f : FileUpdate) (w : World) : Bool × World :=
  downloadDeltaFile E C E.config.urlBaseUpdate f.name f.tag f.update.md5 force w

/-- One file after the other, as long as they come. -/
def fetchFiles (force : Bool) : List FileUpdate → World → Bool × World
  | [], w => (true, w)
  | f :: fs, w =>
    if (fetchFile E C force f w).1 then fetchFiles force fs (fetchFile E C force f w).2
    else (false, (fetchFile E C force f w).2)

/-- The files that a build needs. -/
def Plan.wanted (plan : Plan) : List FileUpdate :=
  plan.deltas.map (fun d => d.update) ++ if E.config.applySignature then [plan.last.signature] else []

/-- A path leads to what the service asks the server for. -/
def Requests (force : Bool) (path : String) (f : FileUpdate) (w : World) : Prop :=
  f.tag = none ∧ (force || C.networkState w.networkReads) = true ∧
    w.files.resolve path = w.files.resolve (E.config.getPathBase ++ f.name)

instance (force : Bool) (path : String) (f : FileUpdate) (w : World) : Decidable (Requests E C force path f w) :=
  inferInstanceAs (Decidable (_ ∧ _ ∧ _))

/-- The MD5 under a path when a file has been asked for: its published one, and
none where it did not come. -/
def arrivedMD5 (force : Bool) (path : String) (f : FileUpdate) (w : World) (md5 : Option String) : Option String :=
  if Requests E C force path f w then
    if (fetchFile E C force f w).1 then some f.update.md5 else none
  else md5

/-- The MD5 under a path after the downloads, where it was `md5` before them. -/
def leftMD5 (force : Bool) (path : String) : List FileUpdate → World → Option String → Option String
  | [], _, md5 => md5
  | f :: fs, w, md5 =>
    if (fetchFile E C force f w).1 then
      leftMD5 force path fs (fetchFile E C force f w).2 (arrivedMD5 E C force path f w md5)
    else arrivedMD5 E C force path f w md5

variable {E C}

/-- What `downloadUrlFile` leaves: another file as it was, and the wanted file if
it goes through. -/
theorem downloadUrlFile_files (url path md5 : String) (w : World) :
    (downloadUrlFile E C url path md5 w).2.files.resolve = w.files.resolve ∧
      (∀ other, w.files.resolve other ≠ w.files.resolve path →
        (downloadUrlFile E C url path md5 w).2.files.read other = w.files.read other) ∧
      ((downloadUrlFile E C url path md5 w).1 = true →
        ((downloadUrlFile E C url path md5 w).2.files.read path).map E.md5 = some md5) := by
  have deleted : ∀ other, w.files.resolve other ≠ w.files.resolve path →
      (w.files.delete path).read other = w.files.read other := fun _ ne => FileStore.read_delete_of_ne ne
  rw [downloadUrlFile]
  split
  · exact ⟨rfl, deleted, fun ok => absurd ok Bool.false_ne_true⟩
  · split
    · exact ⟨rfl, deleted, fun ok => absurd ok Bool.false_ne_true⟩
    · rw [receiveFile]
      split
      · refine ⟨rfl, fun other ne => ?_, fun ok => ?_⟩
        · exact (FileStore.read_write_of_ne (s := w.files.delete path) ne _).trans (deleted other ne)
        · simp only [Bool.and_eq_true, beq_iff_eq] at ok
          rw [FileStore.read_write, Option.map_some, ok.2]
      · exact ⟨rfl, deleted, fun ok => absurd ok Bool.false_ne_true⟩

/-- A file that is there, or that the network does not allow, is not asked for. -/
theorem fetchFile_idle {force : Bool} {f : FileUpdate} {w : World}
    (idle : ¬ (f.tag = none ∧ (force || C.networkState w.networkReads) = true)) :
    (fetchFile E C force f w).2.files = w.files := by
  unfold fetchFile downloadDeltaFile
  cases tag : f.tag with
  | some there => rfl
  | none =>
    simp only
    rw [if_neg fun allowed => idle ⟨tag, allowed⟩]
    exact World.lookUnless_files ..

/-- A file that is asked for comes with its MD5, or is deleted. -/
theorem fetchFile_asked {force : Bool} {f : FileUpdate} {w : World} (untagged : f.tag = none)
    (allowed : (force || C.networkState w.networkReads) = true) :
    (fetchFile E C force f w).2.files.resolve = w.files.resolve ∧
      (∀ other, w.files.resolve other ≠ w.files.resolve (E.config.getPathBase ++ f.name) →
        (fetchFile E C force f w).2.files.read other = w.files.read other) ∧
      ((fetchFile E C force f w).2.files.read (E.config.getPathBase ++ f.name)).map E.md5 =
        if (fetchFile E C force f w).1 then some f.update.md5 else none := by
  obtain ⟨resolve, others, came⟩ := downloadUrlFile_files (E := E) (C := C) (E.config.urlBaseUpdate ++ f.name)
    (E.config.getPathBase ++ f.name) f.update.md5
    ((w.lookUnless force).emit (.transfer (E.config.urlBaseUpdate ++ f.name) (E.config.getPathBase ++ f.name)))
  simp only [fetchFile, downloadDeltaFile, untagged, if_pos allowed]
  generalize downloadUrlFile E C _ _ _ _ = result at resolve others came
  rw [World.emit_files, World.lookUnless_files] at resolve others
  cases ok : result.1 with
  | true =>
    simp only [if_true]
    exact ⟨resolve, others, came ok⟩
  | false =>
    have gone : ∀ other, w.files.resolve other ≠ w.files.resolve (E.config.getPathBase ++ f.name) →
        (result.2.files.delete (E.config.getPathBase ++ f.name)).read other = w.files.read other := fun other ne =>
      (FileStore.read_delete_of_ne (by rw [resolve]; exact ne)).trans (others other ne)
    have deleted := congrArg (Option.map E.md5) (result.2.files.read_delete (E.config.getPathBase ++ f.name))
    simp only [Bool.false_eq_true, if_false]
    split
    · exact ⟨resolve, gone, deleted⟩
    · exact ⟨resolve, gone, deleted⟩

theorem fetchFile_files (force : Bool) (f : FileUpdate) (w : World) (path : String) :
    (fetchFile E C force f w).2.files.resolve = w.files.resolve ∧
      ((fetchFile E C force f w).2.files.read path).map E.md5 =
        arrivedMD5 E C force path f w ((w.files.read path).map E.md5) := by
  rw [arrivedMD5]
  by_cases asked : f.tag = none ∧ (force || C.networkState w.networkReads) = true
  · obtain ⟨resolve, others, here⟩ := fetchFile_asked (E := E) asked.1 asked.2
    refine ⟨resolve, ?_⟩
    by_cases same : w.files.resolve path = w.files.resolve (E.config.getPathBase ++ f.name)
    · rw [if_pos ⟨asked.1, asked.2, same⟩, ← here, FileStore.read, FileStore.read, resolve, same]
    · rw [if_neg fun requests => same requests.2.2, others path same]
  · have idle := fetchFile_idle (E := E) asked
    rw [if_neg fun requests => asked ⟨requests.1, requests.2.1⟩, idle]
    exact ⟨rfl, rfl⟩

/-- **The MD5 that is left under a path** by the downloads of a build. -/
theorem fetchFiles_md5 (force : Bool) (path : String) (fs : List FileUpdate) (w : World) :
    ((fetchFiles E C force fs w).2.files.read path).map E.md5 =
        leftMD5 E C force path fs w ((w.files.read path).map E.md5) ∧
      (fetchFiles E C force fs w).2.files.resolve = w.files.resolve := by
  induction fs generalizing w with
  | nil => exact ⟨rfl, rfl⟩
  | cons f fs ih =>
    obtain ⟨resolve, here⟩ := fetchFile_files (E := E) (C := C) force f w path
    rw [fetchFiles, leftMD5, ← here]
    split
    · exact ⟨(ih _).1, (ih _).2.trans resolve⟩
    · exact ⟨rfl, resolve⟩

theorem fetchFiles_append (force : Bool) (fs gs : List FileUpdate) (w : World) :
    fetchFiles E C force (fs ++ gs) w =
      if (fetchFiles E C force fs w).1 then fetchFiles E C force gs (fetchFiles E C force fs w).2
      else fetchFiles E C force fs w := by
  induction fs generalizing w with
  | nil => rfl
  | cons f fs ih =>
    rw [List.cons_append, fetchFiles, fetchFiles]
    split
    · exact ih _
    · rfl

theorem downloadUpdates_fetches (force : Bool) (ds : List DeltaInfo) (w : World) :
    downloadUpdates E C force ds w = fetchFiles E C force (ds.map fun d => d.update) w := by
  induction ds generalizing w with
  | nil => rfl
  | cons d ds ih =>
    simp only [downloadUpdates, ih]
    rfl

/-- The world in which a build begins its downloads. -/
def World.loading (w : World) : World := (w.emit .downloadFiles).updateState .downloading

/-- A build fetches the files it needs. -/
theorem Plan.download_fetches (plan : Plan) (args : Args) (w : World) :
    (plan.download E C args w).1 = (fetchFiles E C args.userInitiated (plan.wanted E) w.loading).1 ∧
      (plan.download E C args w).2.files = (fetchFiles E C args.userInitiated (plan.wanted E) w.loading).2.files := by
  have loading : (w.emit .downloadFiles).updateState .downloading = w.loading := rfl
  simp only [Plan.download, downloadFiles, Plan.wanted, loading, downloadUpdates_fetches, fetchFiles_append]
  generalize fetchFiles E C args.userInitiated (plan.deltas.map fun d => d.update) w.loading = updates
  obtain ⟨came, w'⟩ := updates
  cases came with
  | false => exact ⟨rfl, rfl⟩
  | true =>
    simp only [if_true]
    cases E.config.applySignature with
    | false => exact ⟨rfl, rfl⟩
    | true =>
      have signature : downloadDeltaFile E C E.config.urlBaseUpdate plan.last.signature.name plan.last.signature.tag
          plan.last.signature.update.md5 args.userInitiated w' = fetchFile E C args.userInitiated plan.last.signature w' :=
        rfl
      simp only [if_true, fetchFiles, signature]
      split
      · exact ⟨rfl, rfl⟩
      · exact ⟨rfl, rfl⟩

/-! ## A crash -/

/-- The output of the first native call of a plan. -/
def Plan.firstOutput (E : Env) (plan : Plan) : String :=
  if (patchSteps E plan.deltas plan.last plan.needsProcessing).length = 1 then patchTarget E plan.last
  else tempFiles E 0

/-- The native code takes the process with it in `zipadjust` only, unless there is
no source. -/
theorem NativeCall.run_crashed {c : NativeCall} {w : World} (crashed : (c.run E w).1 = .crashed) :
    c.step = .adjust ∧ (c.run E w).2.files = w.files.delete c.output := by
  obtain ⟨step, file, out⟩ := c
  cases step with
  | adjust =>
    refine ⟨rfl, ?_⟩
    simp only [NativeCall.run, zipadjust, World.updateState_files] at crashed ⊢
    split at crashed
    · cases crashed
    · split at crashed
      · cases crashed
      · cases crashed
      · rfl
  | apply delta =>
    simp only [NativeCall.run, dedelta, World.updateState_files] at crashed
    split at crashed
    · split at crashed
      · cases crashed
      · cases crashed
    · cases crashed

theorem runCalls_crashed {cs : List NativeCall} {w : World} (crashed : (runCalls E cs w).1 = .crashed) :
    ∃ c ∈ cs, c.step = .adjust := by
  induction cs generalizing w with
  | nil => cases crashed
  | cons c cs ih =>
    rw [runCalls_cons] at crashed
    split at crashed
    · obtain ⟨c', member, adjusts⟩ := ih crashed
      exact ⟨c', List.mem_cons_of_mem _ member, adjusts⟩
    · exact ⟨c, List.mem_cons_self .., (NativeCall.run_crashed crashed).1⟩

/-- Only the first call can adjust. -/
theorem patchSteps_tail (deltas : List DeltaInfo) (last : DeltaInfo) (needsProcessing : Bool) :
    .adjust ∉ (patchSteps E deltas last needsProcessing).tail := by
  have applies : .adjust ∉ deltas.map (updateStep E) ++ signatureSteps E last := by
    intro member
    rcases List.mem_append.mp member with update | signature
    · obtain ⟨d, -, same⟩ := List.mem_map.mp update
      cases same
    · rw [signatureSteps] at signature
      split at signature
      · cases List.mem_singleton.mp signature
      · cases signature
  cases needsProcessing with
  | false => exact fun member => applies (List.mem_of_mem_tail member)
  | true => exact applies

/-- A crash leaves everything but the first output. -/
theorem runCalls_relay_crashed {target file : String} {steps : List PatchStep} {w : World}
    (tail : .adjust ∉ steps.tail) (crashed : (runCalls E (relay E target file 0 steps) w).1 = .crashed) :
    (runCalls E (relay E target file 0 steps) w).2.files =
      w.files.delete (if steps.length = 1 then target else tempFiles E 0) := by
  cases steps with
  | nil => cases crashed
  | cons step steps =>
    cases steps with
    | nil =>
      rw [relay, runCalls_singleton] at crashed ⊢
      exact (NativeCall.run_crashed crashed).2
    | cons step' steps =>
      rw [relay_cons_cons, runCalls_cons] at crashed ⊢
      split at crashed
      · obtain ⟨c, member, adjusts⟩ := runCalls_crashed crashed
        refine absurd ?_ tail
        rw [List.tail_cons, ← relay_steps (E := E) target (tempFiles E 0) ((0 + 1) % 2) (step' :: steps), ← adjusts]
        exact List.mem_map_of_mem member
      · rename_i ended
        rw [if_neg ended, (NativeCall.run_crashed crashed).2, if_neg (by simp)]

/-- Without a source, the first delta ends the process. -/
theorem applyDeltas_sourceless {ds : List DeltaInfo} {last : DeltaInfo} {w : World} (nonempty : ds ≠ []) :
    (applyDeltas E ds last (some none) 0 w).1 = .crashed ∧ (applyDeltas E ds last (some none) 0 w).2.files =
      w.files.delete (if (patchSteps E ds last false).length = 1 then patchTarget E last else tempFiles E 0) := by
  obtain ⟨d, rest, rfl⟩ := List.exists_cons_of_ne_nil nonempty
  have single : (!E.config.applySignature && rest.isEmpty) = true ↔ (patchSteps E (d :: rest) last false).length = 1 := by
    rw [patchSteps, signatureSteps]
    cases E.config.applySignature <;> cases rest <;> simp
  simp only [applyDeltas, applyUpdates, Option.getD_some, dedelta, ← single, patchTarget]
  exact ⟨trivial, rfl⟩

/-- **A build that crashes** has deleted the first output of its patches. -/
theorem Plan.patch_crashed {plan : Plan} {w : World} (nonempty : plan.deltas ≠ [])
    (sourceless : plan.initialFile = none → plan.needsProcessing = false)
    (crashed : (plan.patch E w).1 = .crashed) :
    (plan.patch E w).2.files = w.files.delete (plan.firstOutput E) := by
  have steps : (applySteps E plan.deltas plan.last plan.initialFile plan.needsProcessing (w.emit .applyPatches)).1 =
        .crashed ∧ (plan.patch E w).2 =
          (applySteps E plan.deltas plan.last plan.initialFile plan.needsProcessing (w.emit .applyPatches)).2 := by
    simp only [Plan.patch, applyPatches] at crashed ⊢
    split at crashed
    · rename_i ended
      exact ⟨ended, rfl⟩
    · rename_i other
      exact absurd crashed other
  rw [steps.2]
  cases source : plan.initialFile with
  | none =>
    rw [sourceless source, applySteps_direct, Plan.firstOutput, sourceless source]
    exact (applyDeltas_sourceless nonempty).2
  | some file =>
    have ended := steps.1
    rw [source, applySteps_calls nonempty, patchCalls] at ended
    rw [applySteps_calls nonempty, patchCalls]
    exact runCalls_relay_crashed (patchSteps_tail _ _ _) ended

/-! ## A build that goes through -/

/-- What the deltas of a plan make of its initial file. -/
def Plan.decodes (E : Env) (plan : Plan) (files : FileStore) : Option Bytes :=
  plan.initialFile.bind fun file => (files.read file).bind fun input =>
    decoded E files 0 input (patchSteps E plan.deltas plan.last plan.needsProcessing)

/-- The cleanup leaves the result of a plan. -/
def Plan.Spares (E : Env) (plan : Plan) (files : FileStore) : Prop :=
  ∀ o ∈ cleanupOps E plan.deltas, files.resolve plan.flashFilename ≠ files.resolve o.path

theorem cleanupOps_deletes (ds : List DeltaInfo) : ∀ o ∈ cleanupOps E ds, ∃ path, o = .delete path := by
  induction ds with
  | nil => exact nofun
  | cons d ds ih =>
    intro o member
    rw [cleanupOps, List.mem_append, List.mem_append] at member
    rcases member with (names | out) | later
    · simp only [List.mem_cons, List.not_mem_nil, or_false] at names
      rcases names with rfl | rfl
      · exact ⟨_, rfl⟩
      · exact ⟨_, rfl⟩
    · split at out
      · cases out
      · exact ⟨_, List.mem_singleton.mp out⟩
    · exact ih o later

variable {args : Args} {plan : Plan} {w : World}

/-- Patches that go through, and whose result is there, leave what they decode to. -/
theorem Plan.patch_decodes (nonempty : plan.deltas ≠ [])
    (sourceless : plan.initialFile = none → plan.needsProcessing = false) (done : (plan.patch E w).1 = .done)
    {result : Bytes} (read : (plan.patch E w).2.files.read (patchTarget E plan.last) = some result) :
    plan.decodes E w.files = some result := by
  have steps : (applySteps E plan.deltas plan.last plan.initialFile plan.needsProcessing (w.emit .applyPatches)).1 =
        .done ∧ (applySteps E plan.deltas plan.last plan.initialFile plan.needsProcessing
          (w.emit .applyPatches)).2.files.read (patchTarget E plan.last) = some result := by
    simp only [Plan.patch, applyPatches] at done read
    split at done
    · cases done
    · have ended := done
      simp only at ended
      simp only [ended] at read
      rw [if_neg (by decide)] at read
      exact ⟨ended, FileStore.read_of_delete (FileStore.read_of_delete read)⟩
  obtain ⟨ended, written⟩ := steps
  cases source : plan.initialFile with
  | none =>
    rw [source, sourceless source, applySteps_direct, (applyDeltas_sourceless nonempty).1] at ended
    cases ended
  | some file =>
    have there := (applySteps_result nonempty ended).2 file source
    rw [World.emit_files] at there
    obtain ⟨input, reads⟩ := Option.isSome_iff_exists.mp there
    rw [source, applySteps_calls nonempty, patchCalls] at ended written
    obtain ⟨output, decodes, written'⟩ := runCalls_decoded (w := w.emit .applyPatches)
      (patchSteps_ne_nil nonempty _ _) reads ended
    cases written.symm.trans written'
    rw [Plan.decodes, source, Option.bind_some, reads, Option.bind_some]
    exact decodes

/-- **The result of a build that goes through** is what its deltas decode to, or
gone with the cleanup. -/
theorem Built.result (built : Built E C args plan w) (nonempty : plan.deltas ≠ [])
    (sourceless : plan.initialFile = none → plan.needsProcessing = false)
    (target : plan.flashFilename = patchTarget E plan.last) (bytes : Bytes) :
    (builtFiles E C args plan w).read plan.flashFilename = some bytes ↔
      plan.Spares E (plan.download E C args w).2.files ∧ plan.decodes E (plan.download E C args w).2.files = some bytes := by
  obtain ⟨kind, verified⟩ := Option.isSome_iff_exists.mp built.verified
  obtain ⟨result, read, -⟩ := FileFull.matchFile_md5 verified
  have decodes := Plan.patch_decodes nonempty sourceless built.applied (target ▸ read)
  have resolve : (plan.patch E (plan.download E C args w).2).2.files.resolve =
      (plan.download E C args w).2.files.resolve := by
    rw [Plan.patch, applyPatches_files, FileStore.resolve_performAll]
  rw [builtFiles, cleanup_files, decodes, ← read]
  by_cases spares : plan.Spares E (plan.download E C args w).2.files
  · rw [and_iff_right spares, FileStore.read_performAll_of_ne]
    intro o member
    rw [resolve]
    exact spares o member
  · refine ⟨fun some => ?_, fun both => absurd both.1 spares⟩
    obtain ⟨o, member, hit⟩ : ∃ o ∈ cleanupOps E plan.deltas, (plan.download E C args w).2.files.resolve
        plan.flashFilename = (plan.download E C args w).2.files.resolve o.path := by
      by_contra none
      exact spares fun o member same => none ⟨o, member, same⟩
    rw [FileStore.read_performAll_deletes (cleanupOps_deletes _) ⟨o, member, by rw [resolve]; exact hit⟩] at some
    cases some

end OpenDelta.Service
