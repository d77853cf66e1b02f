import OpenDelta.Service.Patching

/-!
# What a relay makes

Each step makes bytes of bytes, by way of a delta file where it applies one. A
relay makes of its input what its steps make one after the other, when none of
its outputs is a delta file that is still to be read.
-/

namespace OpenDelta.Service

variable (E : Env)

/-- What a step makes of its input, with the delta files of a store. -/
def PatchStep.makes (files : FileStore) (input : Bytes) : PatchStep → Option Bytes
  | .adjust => (Zip.zipadjust E.zlib input true).toOption
  | .apply delta => (files.read delta).bind fun delta => (E.dedelta input delta).toOption

/-- What steps make one after the other. -/
def patched (files : FileStore) : Bytes → List PatchStep → Option Bytes
  | input, [] => some input
  | input, step :: steps => (step.makes E files input).bind fun output => patched files output steps

/-- What steps make one after the other, where a temporary file may come to take
the place of a delta file. -/
def decoded : FileStore → Nat → Bytes → List PatchStep → Option Bytes
  | _, _, input, [] => some input
  | files, k, input, step :: steps =>
    (step.makes E files input).bind fun output =>
      decoded (files.write (tempFiles E k) output) ((k + 1) % 2) output steps

/-- The temporary files and the result are different files. -/
structure PathsApart (E : Env) (files : FileStore) (last : DeltaInfo) : Prop where
  temps : files.resolve (tempFiles E 0) ≠ files.resolve (tempFiles E 1)
  first : files.resolve (patchTarget E last) ≠ files.resolve (tempFiles E 0)
  second : files.resolve (patchTarget E last) ≠ files.resolve (tempFiles E 1)

/-- No path that is read leads to a temporary file or to the result. -/
def ReadApart (files : FileStore) (last : DeltaInfo) (path : String) : Prop :=
  files.resolve path ≠ files.resolve (patchTarget E last) ∧ ∀ k, files.resolve path ≠ files.resolve (tempFiles E k)

/-- So it is with the delta files of the steps. -/
def DeltasApart (files : FileStore) (last : DeltaInfo) (steps : List PatchStep) : Prop :=
  ∀ delta, .apply delta ∈ steps → ReadApart E files last delta

variable {E}

theorem patched_append (files : FileStore) (input : Bytes) (before after : List PatchStep) :
    patched E files input (before ++ after) =
      (patched E files input before).bind fun output => patched E files output after := by
  induction before generalizing input with
  | nil => rfl
  | cons step before ih =>
    rw [List.cons_append, patched, patched, Option.bind_assoc]
    congr 1
    funext output
    exact ih output

theorem patched_congr {files files' : FileStore} {steps : List PatchStep} {input : Bytes}
    (same : ∀ delta, .apply delta ∈ steps → files'.read delta = files.read delta) :
    patched E files' input steps = patched E files input steps := by
  induction steps generalizing input with
  | nil => rfl
  | cons step steps ih =>
    have rest : ∀ output, patched E files' output steps = patched E files output steps := fun output =>
      ih fun delta member => same delta (List.mem_cons_of_mem _ member)
    rw [patched, patched]
    simp only [rest]
    congr 1
    cases step with
    | adjust => rfl
    | apply delta => rw [PatchStep.makes, PatchStep.makes, same delta (List.mem_cons_self ..)]

/-- A call whose step makes something has written it: its input and its delta
file are still there when the output has been deleted. -/
theorem NativeCall.run_makes {c : NativeCall} {w : World} {input output : Bytes}
    (apart : w.files.resolve c.input ≠ w.files.resolve c.output)
    (patches : ∀ delta, c.step = .apply delta → w.files.resolve delta ≠ w.files.resolve c.output)
    (reads : w.files.read c.input = some input) (makes : c.step.makes E w.files input = some output) :
    (c.run E w).1 = .done ∧ (c.run E w).2.files = (w.files.delete c.output).write c.output output := by
  obtain ⟨step, file, out⟩ := c
  have opened : (w.files.delete out).read file = some input := (FileStore.read_delete_of_ne apart).trans reads
  cases step with
  | adjust =>
    rw [PatchStep.makes] at makes
    simp only [NativeCall.run, zipadjust, World.updateState_files, opened]
    cases adjusted : Zip.zipadjust E.zlib input true with
    | error fault =>
      rw [adjusted] at makes
      cases makes
    | ok bytes =>
      rw [adjusted] at makes
      cases makes
      exact ⟨rfl, rfl⟩
  | apply delta =>
    obtain ⟨patch, found, makes⟩ := Option.bind_eq_some_iff.mp makes
    have opened' : (w.files.delete out).read delta = some patch :=
      (FileStore.read_delete_of_ne (patches delta rfl)).trans found
    simp only [NativeCall.run, dedelta, World.updateState_files, opened, opened']
    cases decoded : E.dedelta input patch with
    | error left =>
      rw [decoded] at makes
      cases makes
    | ok bytes =>
      rw [decoded] at makes
      cases makes
      exact ⟨rfl, rfl⟩

theorem read_replaced_of_ne {files : FileStore} {path other : String} (ne : files.resolve other ≠ files.resolve path)
    (bytes : Bytes) : ((files.delete path).write path bytes).read other = files.read other :=
  (FileStore.read_write_of_ne (s := files.delete path) ne bytes).trans (FileStore.read_delete_of_ne ne)

theorem PathsApart.of_resolve {files files' : FileStore} {last : DeltaInfo} (apart : PathsApart E files last)
    (same : files'.resolve = files.resolve) : PathsApart E files' last :=
  ⟨by rw [same]; exact apart.temps, by rw [same]; exact apart.first, by rw [same]; exact apart.second⟩

/-- The temporary file of an index is neither the other one nor the result. -/
theorem PathsApart.temp {files : FileStore} {last : DeltaInfo} (apart : PathsApart E files last) {k : Nat}
    (index : k < 2) :
    files.resolve (tempFiles E k) ≠ files.resolve (patchTarget E last) ∧
      files.resolve (tempFiles E k) ≠ files.resolve (tempFiles E ((k + 1) % 2)) := by
  obtain rfl | rfl : k = 0 ∨ k = 1 := by omega
  · exact ⟨apart.first.symm, apart.temps⟩
  · exact ⟨apart.second.symm, apart.temps.symm⟩

/-- **A relay makes what its steps make.** -/
theorem runCalls_relay {last : DeltaInfo} {file : String} {k : Nat} {steps : List PatchStep} {w : World}
    {input output : Bytes} (nonempty : steps ≠ []) (index : k < 2) (reads : w.files.read file = some input)
    (makes : patched E w.files input steps = some output) (apart : PathsApart E w.files last)
    (deltas : DeltasApart E w.files last steps)
    (fileApart : w.files.resolve file ≠ w.files.resolve (patchTarget E last) ∧
      w.files.resolve file ≠ w.files.resolve (tempFiles E k)) :
    (runCalls E (relay E (patchTarget E last) file k steps) w).1 = .done ∧
      (runCalls E (relay E (patchTarget E last) file k steps) w).2.files.read (patchTarget E last) = some output ∧
      (runCalls E (relay E (patchTarget E last) file k steps) w).2.files.resolve = w.files.resolve := by
  induction steps generalizing file k w input with
  | nil => exact absurd rfl nonempty
  | cons step steps ih =>
    obtain ⟨made, here, later⟩ := Option.bind_eq_some_iff.mp makes
    have patches : ∀ delta, step = .apply delta → ReadApart E w.files last delta :=
      fun delta same => deltas delta (same ▸ List.mem_cons_self ..)
    cases steps with
    | nil =>
      cases later
      have ran := NativeCall.run_makes (c := ⟨step, file, patchTarget E last⟩) fileApart.1
        (fun delta same => (patches delta same).1) reads here
      rw [relay, runCalls_singleton, ran.2]
      exact ⟨ran.1, FileStore.read_write .., rfl⟩
    | cons step' steps =>
      have ran := NativeCall.run_makes (c := ⟨step, file, tempFiles E k⟩) fileApart.2
        (fun delta same => (patches delta same).2 k) reads here
      rw [relay_cons_cons, runCalls_cons, if_pos ran.1]
      have later' : DeltasApart E w.files last (step' :: steps) :=
        fun delta member => deltas delta (List.mem_cons_of_mem _ member)
      have others : ∀ delta, .apply delta ∈ step' :: steps →
          (NativeCall.run E ⟨step, file, tempFiles E k⟩ w).2.files.read delta = w.files.read delta := by
        intro delta member
        rw [ran.2, read_replaced_of_ne ((later' delta member).2 k)]
      have resolve : (NativeCall.run E ⟨step, file, tempFiles E k⟩ w).2.files.resolve = w.files.resolve := by
        rw [ran.2]
        rfl
      rw [← resolve]
      refine ih (List.cons_ne_nil _ _) (Nat.mod_lt _ (by decide)) (by rw [ran.2, FileStore.read_write]) ?_
        (apart.of_resolve resolve) ?_ ?_
      · rw [patched_congr others, later]
      · intro delta member
        rw [ReadApart, resolve]
        exact later' delta member
      · rw [resolve]
        exact apart.temp index

/-! ## What a relay has made -/

/-- A call that goes through has made its output of its input. -/
theorem NativeCall.run_made {c : NativeCall} {w : World} {input : Bytes} (reads : w.files.read c.input = some input)
    (done : (c.run E w).1 = .done) :
    ∃ output, c.step.makes E w.files input = some output ∧ (c.run E w).2.files = w.files.write c.output output := by
  obtain ⟨step, file, out⟩ := c
  cases step with
  | adjust =>
    simp only [NativeCall.run, zipadjust, World.updateState_files] at done ⊢
    split at done
    · cases done
    · rename_i bytes opened
      cases reads.symm.trans (FileStore.read_of_delete opened)
      split at done
      · rename_i output adjusted
        exact ⟨output, by rw [PatchStep.makes, adjusted]; rfl, FileStore.write_delete ..⟩
      · cases done
      · cases done
  | apply delta =>
    simp only [NativeCall.run, dedelta, World.updateState_files] at done ⊢
    split at done
    · rename_i source patch opened opened'
      cases reads.symm.trans (FileStore.read_of_delete opened)
      split at done
      · rename_i output decodes
        refine ⟨output, ?_, FileStore.write_delete ..⟩
        rw [PatchStep.makes, FileStore.read_of_delete opened', Option.bind_some, decodes]
        rfl
      · cases done
    · cases done

/-- **A relay that goes through leaves what its steps make**, whatever the paths of
its files lead to. -/
theorem runCalls_decoded {target file : String} {k : Nat} {steps : List PatchStep} {w : World} {input : Bytes}
    (nonempty : steps ≠ []) (reads : w.files.read file = some input)
    (done : (runCalls E (relay E target file k steps) w).1 = .done) :
    ∃ output, decoded E w.files k input steps = some output ∧
      (runCalls E (relay E target file k steps) w).2.files.read target = some output := by
  induction steps generalizing file k w input with
  | nil => exact absurd rfl nonempty
  | cons step steps ih =>
    cases steps with
    | nil =>
      rw [relay, runCalls_singleton] at done ⊢
      obtain ⟨output, makes, files⟩ := NativeCall.run_made reads done
      rw [decoded, makes, files]
      exact ⟨output, rfl, FileStore.read_write ..⟩
    | cons step' steps =>
      rw [relay_cons_cons, runCalls_cons] at done ⊢
      by_cases succeeds : ((NativeCall.mk step file (tempFiles E k)).run E w).1 = .done
      · rw [if_pos succeeds] at done ⊢
        obtain ⟨output, makes, files⟩ := NativeCall.run_made reads succeeds
        rw [decoded, makes, Option.bind_some]
        have later := ih (List.cons_ne_nil _ _) (by rw [files, FileStore.read_write]) done
        rw [files] at later
        exact later
      · rw [if_neg succeeds] at done
        exact absurd done succeeds

/-! ## What `applyPatches` makes -/

/-- **What `applyPatches` makes** of its initial file. -/
theorem applyPatches_makes {deltas : List DeltaInfo} {last : DeltaInfo} {file : String} {needsProcessing : Bool}
    {w : World} {input output : Bytes} (nonempty : deltas ≠ []) (reads : w.files.read file = some input)
    (makes : patched E w.files input (patchSteps E deltas last needsProcessing) = some output)
    (apart : PathsApart E w.files last)
    (deltasApart : DeltasApart E w.files last (patchSteps E deltas last needsProcessing))
    (fileApart : ReadApart E w.files last file) :
    (applyPatches E deltas last (some file) needsProcessing w).1 = .done ∧
      (applyPatches E deltas last (some file) needsProcessing w).2.files.read (patchTarget E last) = some output := by
  have calls := applySteps_calls (E := E) nonempty last file needsProcessing (w.emit .applyPatches)
  obtain ⟨done, written, resolve⟩ := runCalls_relay (w := w.emit .applyPatches) (k := 0)
    (patchSteps_ne_nil nonempty last needsProcessing) (by decide) reads makes apart deltasApart
    ⟨fileApart.1, fileApart.2 0⟩
  rw [patchCalls] at calls
  rw [← calls] at done written resolve
  simp only [applyPatches, done]
  refine ⟨trivial, ?_⟩
  rw [if_neg (by decide), FileStore.read_delete_of_ne, FileStore.read_delete_of_ne, written]
  · rw [resolve]
    exact apart.first
  · rw [FileStore.resolve_delete, resolve]
    exact apart.second

end OpenDelta.Service
