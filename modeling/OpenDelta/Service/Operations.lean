import OpenDelta.Service.SignedFlag

/-!
# The file operations of a build

Patching and cleanup as lists of operations on the storage: `applyPatches` and
`cleanup` leave what their operations lead to, and every file is deleted before
it is written.
-/

namespace OpenDelta.Service

variable (E : Env)

/-! ## Native steps -/

/-- The operations of `zipadjust`. -/
def zipadjustOps (filenameIn filenameOut : String) (files : FileStore) : List FileOperation :=
  .delete filenameOut ::
    match (files.delete filenameOut).read filenameIn with
    | none => []
    | some bytes =>
      match Zip.zipadjust E.zlib bytes true with
      | .ok out => [.write filenameOut out]
      | .error _ => []

/-- The operations of `dedelta`. -/
def dedeltaOps (filenameSource : Option String) (filenameDelta filenameOut : String) (files : FileStore) :
    List FileOperation :=
  .delete filenameOut ::
    match filenameSource with
    | none => []
    | some filenameSource =>
      match (files.delete filenameOut).read filenameSource, (files.delete filenameOut).read filenameDelta with
      | some source, some delta =>
        match E.dedelta source delta with
        | .ok out => [.write filenameOut out]
        | .error left => [.write filenameOut left]
      | _, _ => []

variable {E}

theorem zipadjust_files (file out : String) (w : World) :
    (zipadjust E file out w).2.files = w.files.performAll (zipadjustOps E file out w.files) := by
  simp only [zipadjust, zipadjustOps, World.updateState_files]
  cases (w.files.delete out).read file with
  | none => rfl
  | some bytes =>
    simp only
    cases Zip.zipadjust E.zlib bytes true with
    | ok out => rfl
    | error fault => cases fault <;> rfl

theorem zipadjustOps_replaces (file out : String) (files : FileStore) : Replaces (zipadjustOps E file out files) := by
  unfold zipadjustOps
  split
  · exact .delete _ .nil
  · split
    · exact .replace _ _ .nil
    · exact .delete _ .nil

theorem dedelta_files (source : Option String) (delta out : String) (w : World) :
    (dedelta E source delta out w).2.files = w.files.performAll (dedeltaOps E source delta out w.files) := by
  cases source with
  | none => rfl
  | some source =>
    simp only [dedelta, dedeltaOps, World.updateState_files]
    cases (w.files.delete out).read source with
    | none => rfl
    | some source =>
      cases (w.files.delete out).read delta with
      | none => rfl
      | some delta =>
        simp only
        cases E.dedelta source delta <;> rfl

theorem dedeltaOps_replaces (source : Option String) (delta out : String) (files : FileStore) :
    Replaces (dedeltaOps E source delta out files) := by
  unfold dedeltaOps
  split
  · exact .delete _ .nil
  · split
    · split
      · exact .replace _ _ .nil
      · exact .replace _ _ .nil
    · exact .delete _ .nil

/-- A step that goes through has had its source, and has written its output. -/
theorem dedelta_done {source : Option String} {delta out : String} {w : World}
    (done : (dedelta E source delta out w).1 = .done) :
    ∃ file, source = some file ∧ (w.files.read file).isSome = true ∧
      ∃ bytes, FileOperation.write out bytes ∈ dedeltaOps E source delta out w.files := by
  cases source with
  | none => cases done
  | some file =>
    simp only [dedelta, World.updateState_files] at done
    simp only [dedeltaOps]
    cases read : (w.files.delete out).read file with
    | none => simp [read] at done
    | some source =>
      cases read' : (w.files.delete out).read delta with
      | none => simp [read, read'] at done
      | some delta =>
        refine ⟨file, rfl, by rw [FileStore.read_of_delete read]; rfl, ?_⟩
        simp only
        cases decoded : E.dedelta source delta with
        | ok out => exact ⟨out, by simp⟩
        | error left => exact ⟨left, by simp⟩

/-! ## `applyPatches` -/

variable (E)

/-- The operations of the loop over the updates. -/
def applyUpdatesOps (last : DeltaInfo) (source : Option (Option String)) : List DeltaInfo → Nat → World →
    List FileOperation
  | [], _, _ => []
  | d :: ds, tempFile, w =>
    let inFile := source.getD (some (tempFiles E ((tempFile + 1) % 2)))
    let outFile :=
      if !E.config.applySignature && ds.isEmpty then E.config.getPathBase ++ last.out.name
      else tempFiles E tempFile
    let result := dedelta E inFile (E.config.getPathBase ++ d.update.name) outFile w
    dedeltaOps E inFile (E.config.getPathBase ++ d.update.name) outFile w.files ++
      match result.1 with
      | .done => applyUpdatesOps last none ds ((tempFile + 1) % 2) result.2
      | _ => []

/-- The `try` block behind its call of `zipadjust`. -/
def applyDeltas (deltas : List DeltaInfo) (last : DeltaInfo) (source : Option (Option String)) (tempFile : Nat)
    (w : World) : Native × World :=
  let updates := applyUpdates E last source deltas tempFile w
  match updates.1 with
  | .done =>
    if E.config.applySignature then
      dedelta E (some (tempFiles E ((updates.2.1 + 1) % 2))) (E.config.getPathBase ++ last.signature.name)
        (E.config.getPathBase ++ last.out.name) updates.2.2
    else (.done, updates.2.2)
  | ended => (ended, updates.2.2)

def applyDeltasOps (deltas : List DeltaInfo) (last : DeltaInfo) (source : Option (Option String)) (tempFile : Nat)
    (w : World) : List FileOperation :=
  let updates := applyUpdates E last source deltas tempFile w
  applyUpdatesOps E last source deltas tempFile w ++
    match updates.1 with
    | .done =>
      if E.config.applySignature then
        dedeltaOps E (some (tempFiles E ((updates.2.1 + 1) % 2))) (E.config.getPathBase ++ last.signature.name)
          (E.config.getPathBase ++ last.out.name) updates.2.2.files
      else []
    | _ => []

/-- The operations of the `try` block. -/
def applyStepsOps (deltas : List DeltaInfo) (last : DeltaInfo) (initialFile : Option String) (w : World) :
    Bool → List FileOperation
  | true =>
    match initialFile with
    | some file =>
      zipadjustOps E file (tempFiles E 0) w.files ++
        match (zipadjust E file (tempFiles E 0) w).1 with
        | .done => applyDeltasOps E deltas last none 1 (zipadjust E file (tempFiles E 0) w).2
        | _ => []
    | none => applyDeltasOps E deltas last none 1 w
  | false => applyDeltasOps E deltas last (some initialFile) 0 w

/-- The operations of `applyPatches`: those of its steps, and in the `finally`
block the deletion of the temporary files. -/
def applyPatchesOps (deltas : List DeltaInfo) (last : DeltaInfo) (initialFile : Option String)
    (needsProcessing : Bool) (w : World) : List FileOperation :=
  applyStepsOps E deltas last initialFile (w.emit .applyPatches) needsProcessing ++
    match (applySteps E deltas last initialFile needsProcessing (w.emit .applyPatches)).1 with
    | .crashed => []
    | _ => [.delete (tempFiles E 0), .delete (tempFiles E 1)]

variable {E}

theorem applyUpdates_files (last : DeltaInfo) (ds : List DeltaInfo) (source : Option (Option String)) (k : Nat)
    (w : World) : (applyUpdates E last source ds k w).2.2.files =
      w.files.performAll (applyUpdatesOps E last source ds k w) := by
  induction ds generalizing source k w with
  | nil => rfl
  | cons d ds ih =>
    simp only [applyUpdates, applyUpdatesOps, FileStore.performAll_append, ← dedelta_files]
    generalize dedelta E _ _ _ w = result
    cases result.1 with
    | done => exact ih ..
    | failed => rfl
    | crashed => rfl

theorem applyUpdatesOps_replaces (last : DeltaInfo) (ds : List DeltaInfo) (source : Option (Option String)) (k : Nat)
    (w : World) : Replaces (applyUpdatesOps E last source ds k w) := by
  induction ds generalizing source k w with
  | nil => exact .nil
  | cons d ds ih =>
    apply Replaces.append (dedeltaOps_replaces ..)
    split
    · exact ih ..
    · exact .nil

theorem applyDeltas_files (ds : List DeltaInfo) (last : DeltaInfo) (source : Option (Option String)) (k : Nat)
    (w : World) :
    (applyDeltas E ds last source k w).2.files = w.files.performAll (applyDeltasOps E ds last source k w) := by
  simp only [applyDeltas, applyDeltasOps, FileStore.performAll_append, ← applyUpdates_files]
  generalize applyUpdates E last source ds k w = updates
  cases updates.1 with
  | failed => rfl
  | crashed => rfl
  | done =>
    simp only
    split
    · exact dedelta_files ..
    · rfl

theorem applyDeltasOps_replaces (ds : List DeltaInfo) (last : DeltaInfo) (source : Option (Option String)) (k : Nat)
    (w : World) : Replaces (applyDeltasOps E ds last source k w) := by
  unfold applyDeltasOps
  apply Replaces.append (applyUpdatesOps_replaces ..)
  split
  · split
    · exact dedeltaOps_replaces ..
    · exact .nil
  · exact .nil

/-- `applySteps`, where it begins with `zipadjust`. -/
theorem applySteps_adjusted (ds : List DeltaInfo) (last : DeltaInfo) (file : String) (w : World) :
    applySteps E ds last (some file) true w =
      match (zipadjust E file (tempFiles E 0) w).1 with
      | .done => applyDeltas E ds last none 1 (zipadjust E file (tempFiles E 0) w).2
      | ended => (ended, (zipadjust E file (tempFiles E 0) w).2) := rfl

theorem applySteps_direct (ds : List DeltaInfo) (last : DeltaInfo) (initialFile : Option String) (w : World) :
    applySteps E ds last initialFile false w = applyDeltas E ds last (some initialFile) 0 w := by
  cases initialFile <;> rfl

theorem applySteps_files (ds : List DeltaInfo) (last : DeltaInfo) (initialFile : Option String)
    (needsProcessing : Bool) (w : World) :
    (applySteps E ds last initialFile needsProcessing w).2.files =
      w.files.performAll (applyStepsOps E ds last initialFile w needsProcessing) := by
  cases needsProcessing with
  | false =>
    rw [applySteps_direct]
    exact applyDeltas_files ..
  | true =>
    cases initialFile with
    | none => exact applyDeltas_files (E := E) ds last none 1 w
    | some file =>
      rw [applySteps_adjusted]
      simp only [applyStepsOps, FileStore.performAll_append, ← zipadjust_files]
      generalize zipadjust E file (tempFiles E 0) w = adjusted
      cases adjusted.1 with
      | failed => rfl
      | crashed => rfl
      | done => exact applyDeltas_files ..

theorem applyStepsOps_replaces (ds : List DeltaInfo) (last : DeltaInfo) (initialFile : Option String)
    (needsProcessing : Bool) (w : World) : Replaces (applyStepsOps E ds last initialFile w needsProcessing) := by
  unfold applyStepsOps
  split
  · split
    · apply Replaces.append (zipadjustOps_replaces ..)
      split
      · exact applyDeltasOps_replaces ..
      · exact .nil
    · exact applyDeltasOps_replaces ..
  · exact applyDeltasOps_replaces ..

/-- `applyPatches` leaves what its operations lead to. -/
theorem applyPatches_files (ds : List DeltaInfo) (last : DeltaInfo) (initialFile : Option String)
    (needsProcessing : Bool) (w : World) :
    (applyPatches E ds last initialFile needsProcessing w).2.files =
      w.files.performAll (applyPatchesOps E ds last initialFile needsProcessing w) := by
  have steps := applySteps_files (E := E) ds last initialFile needsProcessing (w.emit .applyPatches)
  rw [World.emit_files] at steps
  simp only [applyPatches, applyPatchesOps, FileStore.performAll_append, ← steps]
  cases ended : (applySteps E ds last initialFile needsProcessing (w.emit .applyPatches)).1 with
  | crashed => rfl
  | done => rfl
  | failed => rfl

theorem applyPatchesOps_replaces (ds : List DeltaInfo) (last : DeltaInfo) (initialFile : Option String)
    (needsProcessing : Bool) (w : World) : Replaces (applyPatchesOps E ds last initialFile needsProcessing w) := by
  unfold applyPatchesOps
  apply Replaces.append (applyStepsOps_replaces ..)
  split
  · exact .nil
  · exact .delete _ (.delete _ .nil)

/-! ## The cleanup -/

variable (E) in
def cleanupOps : List DeltaInfo → List FileOperation
  | [] => []
  | d :: ds =>
    [.delete (E.config.getPathBase ++ d.update.name), .delete (E.config.getPathBase ++ d.signature.name)] ++
      (if ds.isEmpty then [] else [.delete (E.config.getPathBase ++ d.out.name)]) ++ cleanupOps ds

theorem cleanup_files (ds : List DeltaInfo) (files : FileStore) :
    cleanup E files ds = files.performAll (cleanupOps E ds) := by
  induction ds generalizing files with
  | nil => rfl
  | cons d ds ih =>
    simp only [cleanup, cleanupOps, FileStore.performAll_append, ih]
    split <;> rfl

theorem cleanupOps_replaces (ds : List DeltaInfo) : Replaces (cleanupOps E ds) := by
  induction ds with
  | nil => exact .nil
  | cons d ds ih =>
    refine .append (.append (.delete _ (.delete _ .nil)) ?_) ih
    split
    · exact .nil
    · exact .delete _ .nil

/-! ## A build -/

variable (E) in
/-- The operations of the patches of a plan, and of the cleanup where the result
is verified. -/
def buildOps (plan : Plan) (w : World) : List FileOperation :=
  applyPatchesOps E plan.deltas plan.last plan.initialFile plan.needsProcessing w ++
    if (plan.patch E w).1 = .done ∧ plan.verify E (plan.patch E w).2.files = true then cleanupOps E plan.deltas else []

theorem buildOps_replaces (plan : Plan) (w : World) : Replaces (buildOps E plan w) := by
  unfold buildOps
  apply Replaces.append (applyPatchesOps_replaces ..)
  split
  · exact cleanupOps_replaces _
  · exact .nil

/-- Patches that go through write the result last. -/
theorem applyUpdates_result {last : DeltaInfo} {ds : List DeltaInfo} {source : Option (Option String)} {k : Nat}
    {w : World} (unsigned : E.config.applySignature = false) (nonempty : ds ≠ [])
    (done : (applyUpdates E last source ds k w).1 = .done) :
    ∃ bytes, .write (E.config.getPathBase ++ last.out.name) bytes ∈ applyUpdatesOps E last source ds k w := by
  induction ds generalizing source k w with
  | nil => exact absurd rfl nonempty
  | cons d ds ih =>
    simp only [applyUpdates, applyUpdatesOps] at done ⊢
    generalize step : dedelta E _ _ _ w = result at done ⊢
    cases ended : result.1 with
    | failed => simp [ended] at done
    | crashed => simp [ended] at done
    | done =>
      simp only [ended] at done ⊢
      cases ds with
      | nil =>
        obtain ⟨-, -, -, bytes, written⟩ := dedelta_done ((congrArg Prod.fst step).trans ended)
        refine ⟨bytes, List.mem_append_left _ ?_⟩
        simpa [unsigned] using written
      | cons d' ds =>
        obtain ⟨bytes, written⟩ := ih (List.cons_ne_nil _ _) done
        exact ⟨bytes, List.mem_append_right _ written⟩

theorem applyDeltas_result {last : DeltaInfo} {ds : List DeltaInfo} {source : Option (Option String)} {k : Nat}
    {w : World} (nonempty : ds ≠ []) (done : (applyDeltas E ds last source k w).1 = .done) :
    ∃ bytes, .write (E.config.getPathBase ++ last.out.name) bytes ∈ applyDeltasOps E ds last source k w := by
  simp only [applyDeltas, applyDeltasOps] at done ⊢
  split at done
  · rename_i updated
    cases signature : E.config.applySignature with
    | true =>
      rw [signature, if_pos rfl] at done
      obtain ⟨-, -, -, bytes, written⟩ := dedelta_done done
      exact ⟨bytes, List.mem_append_right _ written⟩
    | false =>
      obtain ⟨bytes, written⟩ := applyUpdates_result signature nonempty updated
      exact ⟨bytes, List.mem_append_left _ written⟩
  · rename_i other
    exact absurd done other

/-- Patches that go through have had their initial file. -/
theorem applyDeltas_source {last : DeltaInfo} {ds : List DeltaInfo} {file : String} {k : Nat} {w : World}
    (nonempty : ds ≠ []) (done : (applyDeltas E ds last (some (some file)) k w).1 = .done) :
    (w.files.read file).isSome = true := by
  cases ds with
  | nil => exact absurd rfl nonempty
  | cons d ds =>
    simp only [applyDeltas, applyUpdates, Option.getD_some] at done
    split at done
    · rename_i updated
      split at updated
      · rename_i stepDone
        obtain ⟨file', same, read, -⟩ := dedelta_done stepDone
        cases same
        exact read
      · rename_i other
        exact absurd updated other
    · rename_i other
      exact absurd done other

theorem applySteps_result {last : DeltaInfo} {ds : List DeltaInfo} {initialFile : Option String}
    {needsProcessing : Bool} {w : World} (nonempty : ds ≠ [])
    (done : (applySteps E ds last initialFile needsProcessing w).1 = .done) :
    (∃ bytes, .write (E.config.getPathBase ++ last.out.name) bytes ∈
        applyStepsOps E ds last initialFile w needsProcessing) ∧
      ∀ file, initialFile = some file → (w.files.read file).isSome = true := by
  cases needsProcessing with
  | false =>
    rw [applySteps_direct] at done
    refine ⟨applyDeltas_result nonempty done, ?_⟩
    rintro file rfl
    exact applyDeltas_source nonempty done
  | true =>
    cases initialFile with
    | none => exact ⟨applyDeltas_result nonempty done, nofun⟩
    | some file =>
      rw [applySteps_adjusted] at done
      simp only [applyStepsOps]
      split at done
      · rename_i adjusted
        obtain ⟨bytes, written⟩ := applyDeltas_result nonempty done
        refine ⟨⟨bytes, List.mem_append_right _ written⟩, ?_⟩
        rintro _ ⟨⟩
        simp only [zipadjust, World.updateState_files] at adjusted
        cases read : (w.files.delete (tempFiles E 0)).read file with
        | none => simp [read] at adjusted
        | some bytes => exact by rw [FileStore.read_of_delete read]; rfl
      · rename_i other
        exact absurd done other

/-- A build that goes through has read its initial file and writes its result. -/
theorem buildOps_result {plan : Plan} {w : World} (nonempty : plan.deltas ≠ []) (done : (plan.patch E w).1 = .done) :
    (∃ bytes, .write (E.config.getPathBase ++ plan.last.out.name) bytes ∈ buildOps E plan w) ∧
      ∀ file, plan.initialFile = some file → (w.files.read file).isSome = true := by
  have steps : (applySteps E plan.deltas plan.last plan.initialFile plan.needsProcessing (w.emit .applyPatches)).1 =
      .done := by
    simp only [Plan.patch, applyPatches] at done
    split at done
    · cases done
    · exact done
  obtain ⟨⟨bytes, written⟩, source⟩ := applySteps_result nonempty steps
  refine ⟨⟨bytes, ?_⟩, source⟩
  exact List.mem_append_left _ (List.mem_append_left _ written)

end OpenDelta.Service
