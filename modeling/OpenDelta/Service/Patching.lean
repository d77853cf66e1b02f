import Mathlib.Data.List.Chain
import OpenDelta.Service.Documents

/-!
# The order of the native calls

`applyPatches` names its files by an index that it toggles, with exceptions for
the first and the last step. Seen from outside it is a relay: each step reads
what the step before it has written, the two temporary files take turns, and the
last step writes the result.
-/

namespace OpenDelta.Service

variable {E : Env}

/-- What a native call does with its input. -/
inductive PatchStep where
  | adjust
  | apply (delta : String)
  deriving DecidableEq

/-- A native call with its files. -/
structure NativeCall where
  step : PatchStep
  input : String
  output : String
  deriving DecidableEq

/-- The calls for some steps: the first one reads `input`, the one with index `k`
writes to a temporary file, and the last one to `target`. -/
def relay (E : Env) (target : String) : String → Nat → List PatchStep → List NativeCall
  | _, _, [] => []
  | input, _, [step] => [⟨step, input, target⟩]
  | input, k, step :: step' :: steps =>
    ⟨step, input, tempFiles E k⟩ :: relay E target (tempFiles E k) ((k + 1) % 2) (step' :: steps)

def NativeCall.run (E : Env) (c : NativeCall) (w : World) : Native × World :=
  match c.step with
  | .adjust => zipadjust E c.input c.output w
  | .apply delta => dedelta E (some c.input) delta c.output w

/-- One call after the other, as long as they succeed. -/
def runCalls (E : Env) : List NativeCall → World → Native × World
  | [], w => (.done, w)
  | c :: cs, w =>
    match (c.run E w).1 with
    | .done => runCalls E cs (c.run E w).2
    | ended => (ended, (c.run E w).2)

/-- The result of a build. -/
def patchTarget (E : Env) (last : DeltaInfo) : String := E.config.getPathBase ++ last.out.name

def updateStep (E : Env) (d : DeltaInfo) : PatchStep := .apply (E.config.getPathBase ++ d.update.name)

def signatureSteps (E : Env) (last : DeltaInfo) : List PatchStep :=
  if E.config.applySignature then [.apply (E.config.getPathBase ++ last.signature.name)] else []

/-- The steps in order: `zipadjust` where the initial file needs it, the deltas,
and the signature delta where it is enabled. -/
def patchSteps (E : Env) (deltas : List DeltaInfo) (last : DeltaInfo) (needsProcessing : Bool) : List PatchStep :=
  (if needsProcessing then [.adjust] else []) ++ (deltas.map (updateStep E) ++ signatureSteps E last)

def patchCalls (E : Env) (deltas : List DeltaInfo) (last : DeltaInfo) (file : String) (needsProcessing : Bool) :
    List NativeCall :=
  relay E (patchTarget E last) file 0 (patchSteps E deltas last needsProcessing)

/-! ## The code makes these calls -/

theorem relay_cons_cons (target input : String) (k : Nat) (step step' : PatchStep) (steps : List PatchStep) :
    relay E target input k (step :: step' :: steps) =
      ⟨step, input, tempFiles E k⟩ :: relay E target (tempFiles E k) ((k + 1) % 2) (step' :: steps) := rfl

/-- The first call decides whether the others are made. -/
theorem runCalls_cons (c : NativeCall) (cs : List NativeCall) (w : World) :
    runCalls E (c :: cs) w = if (c.run E w).1 = .done then runCalls E cs (c.run E w).2 else c.run E w := by
  rw [runCalls]
  generalize c.run E w = result
  obtain ⟨ended, w'⟩ := result
  cases ended <;> rfl

theorem runCalls_singleton (c : NativeCall) (w : World) : runCalls E [c] w = c.run E w := by
  rw [runCalls_cons]
  by_cases done : (c.run E w).1 = .done
  · rw [if_pos done, runCalls, ← done]
  · rw [if_neg done]

/-- So it is in the loop of `applyPatches`. -/
theorem applyUpdates_cons {last d : DeltaInfo} {ds : List DeltaInfo} {source : Option (Option String)} {k : Nat}
    {w : World} {input output : String} (reads : source.getD (some (tempFiles E ((k + 1) % 2))) = some input)
    (writes : (if !E.config.applySignature && ds.isEmpty then patchTarget E last else tempFiles E k) = output) :
    applyUpdates E last source (d :: ds) k w =
      if ((NativeCall.mk (updateStep E d) input output).run E w).1 = .done then
        applyUpdates E last none ds ((k + 1) % 2) ((NativeCall.mk (updateStep E d) input output).run E w).2
      else (((NativeCall.mk (updateStep E d) input output).run E w).1, k,
        ((NativeCall.mk (updateStep E d) input output).run E w).2) := by
  have call : (NativeCall.mk (updateStep E d) input output).run E w =
      dedelta E (some input) (E.config.getPathBase ++ d.update.name) output w := rfl
  rw [call]
  rw [patchTarget] at writes
  simp only [applyUpdates, reads, writes]
  cases ended : (dedelta E (some input) (E.config.getPathBase ++ d.update.name) output w).1 <;> rfl

/-- What follows the loop of `applyPatches`. -/
def afterUpdates (E : Env) (last : DeltaInfo) (updates : Native × Nat × World) : Native × World :=
  match updates.1 with
  | .done =>
    if E.config.applySignature then
      dedelta E (some (tempFiles E ((updates.2.1 + 1) % 2))) (E.config.getPathBase ++ last.signature.name)
        (E.config.getPathBase ++ last.out.name) updates.2.2
    else (.done, updates.2.2)
  | ended => (ended, updates.2.2)

theorem afterUpdates_ended {last : DeltaInfo} {result : Native × World} {k : Nat} (ended : result.1 ≠ .done) :
    afterUpdates E last (result.1, k, result.2) = result := by
  obtain ⟨ending, w⟩ := result
  cases ending with
  | done => exact absurd rfl ended
  | failed => rfl
  | crashed => rfl

/-- The loop and the signature are a relay from the file that the first delta reads. -/
theorem applyUpdates_relay (last : DeltaInfo) {ds : List DeltaInfo} (nonempty : ds ≠ [])
    {source : Option (Option String)} {input : String} {k : Nat} (index : k < 2) (w : World)
    (reads : source.getD (some (tempFiles E ((k + 1) % 2))) = some input) :
    afterUpdates E last (applyUpdates E last source ds k w) =
      runCalls E (relay E (patchTarget E last) input k (ds.map (updateStep E) ++ signatureSteps E last)) w := by
  have toggle : ((k + 1) % 2 + 1) % 2 = k := by omega
  induction ds generalizing source input k w with
  | nil => exact absurd rfl nonempty
  | cons d ds ih =>
    cases ds with
    | nil =>
      cases signed : E.config.applySignature with
      | false =>
        have writes : (if !E.config.applySignature && [].isEmpty (α := DeltaInfo) then patchTarget E last
            else tempFiles E k) = patchTarget E last := by simp [signed]
        have steps : [d].map (updateStep E) ++ signatureSteps E last = [updateStep E d] := by
          simp [signatureSteps, signed]
        rw [applyUpdates_cons reads writes, steps, relay, runCalls_cons]
        by_cases done : ((NativeCall.mk (updateStep E d) input (patchTarget E last)).run E w).1 = .done
        · rw [if_pos done, if_pos done]
          simp [applyUpdates, afterUpdates, signed, runCalls]
        · rw [if_neg done, if_neg done]
          exact afterUpdates_ended done
      | true =>
        have writes : (if !E.config.applySignature && [].isEmpty (α := DeltaInfo) then patchTarget E last
            else tempFiles E k) = tempFiles E k := by simp [signed]
        have steps : [d].map (updateStep E) ++ signatureSteps E last =
            [updateStep E d, .apply (E.config.getPathBase ++ last.signature.name)] := by
          simp [signatureSteps, signed]
        rw [applyUpdates_cons reads writes, steps, relay_cons_cons, relay, runCalls_cons]
        by_cases done : ((NativeCall.mk (updateStep E d) input (tempFiles E k)).run E w).1 = .done
        · rw [if_pos done, if_pos done]
          simp only [applyUpdates, afterUpdates, signed, if_true, toggle]
          rw [runCalls_singleton]
          rfl
        · rw [if_neg done, if_neg done]
          exact afterUpdates_ended done
    | cons d' ds =>
      have writes : (if !E.config.applySignature && (d' :: ds).isEmpty then patchTarget E last
          else tempFiles E k) = tempFiles E k := by simp
      rw [applyUpdates_cons reads writes, List.map_cons, List.map_cons, List.cons_append, List.cons_append,
        relay_cons_cons, runCalls_cons]
      by_cases done : ((NativeCall.mk (updateStep E d) input (tempFiles E k)).run E w).1 = .done
      · rw [if_pos done, if_pos done,
          ih (List.cons_ne_nil _ _) (Nat.mod_lt _ (by decide)) _ (by rw [toggle]; rfl) (by omega)]
        rfl
      · rw [if_neg done, if_neg done]
        exact afterUpdates_ended done

theorem applySteps_eq (ds : List DeltaInfo) (last : DeltaInfo) (file : String) (w : World) :
    applySteps E ds last (some file) false w =
        afterUpdates E last (applyUpdates E last (some (some file)) ds 0 w) ∧
      applySteps E ds last (some file) true w =
        if (zipadjust E file (tempFiles E 0) w).1 = .done then
          afterUpdates E last (applyUpdates E last none ds 1 (zipadjust E file (tempFiles E 0) w).2)
        else zipadjust E file (tempFiles E 0) w := by
  constructor
  · rfl
  · rw [applySteps]
    generalize zipadjust E file (tempFiles E 0) w = adjusted
    obtain ⟨ended, w'⟩ := adjusted
    cases ended <;> rfl

/-- **The `try` block of `applyPatches` makes these calls.** -/
theorem applySteps_calls {ds : List DeltaInfo} (nonempty : ds ≠ []) (last : DeltaInfo) (file : String)
    (needsProcessing : Bool) (w : World) :
    applySteps E ds last (some file) needsProcessing w =
      runCalls E (patchCalls E ds last file needsProcessing) w := by
  obtain ⟨d, rest, rfl⟩ := List.exists_cons_of_ne_nil nonempty
  cases needsProcessing with
  | false =>
    rw [(applySteps_eq ..).1]
    exact applyUpdates_relay last nonempty (by decide) w rfl
  | true =>
    rw [(applySteps_eq ..).2, patchCalls, patchSteps, if_pos rfl, List.map_cons, List.singleton_append,
      List.cons_append, relay_cons_cons, runCalls_cons]
    have call : (NativeCall.mk .adjust file (tempFiles E 0)).run E w = zipadjust E file (tempFiles E 0) w := rfl
    rw [call, applyUpdates_relay last nonempty (by decide) _ rfl]
    rfl

/-! ## What a relay is -/

variable {target input : String} {k : Nat} {steps : List PatchStep}

theorem relay_steps (target input : String) (k : Nat) (steps : List PatchStep) :
    (relay E target input k steps).map (·.step) = steps := by
  induction steps generalizing input k with
  | nil => rfl
  | cons step steps ih =>
    cases steps with
    | nil => rfl
    | cons step' steps => rw [relay_cons_cons, List.map_cons, ih]

theorem relay_head (nonempty : steps ≠ []) :
    (relay E target input k steps).head?.map (·.input) = some input := by
  obtain ⟨step, rest, rfl⟩ := List.exists_cons_of_ne_nil nonempty
  cases rest <;> rfl

/-- Each step reads what the one before it has written. -/
theorem relay_isChain (target input : String) (k : Nat) (steps : List PatchStep) :
    (relay E target input k steps).IsChain fun c c' => c'.input = c.output := by
  induction steps generalizing input k with
  | nil => exact .nil
  | cons step steps ih =>
    cases steps with
    | nil => exact .singleton _
    | cons step' steps =>
      have rest := ih (tempFiles E k) ((k + 1) % 2)
      rw [relay_cons_cons]
      cases steps with
      | nil => exact .cons_cons rfl rest
      | cons step'' steps => exact .cons_cons rfl rest

theorem relay_last (target input : String) (k : Nat) (nonempty : steps ≠ []) :
    (relay E target input k steps).getLast?.map (·.output) = some target := by
  induction steps generalizing input k with
  | nil => exact absurd rfl nonempty
  | cons step steps ih =>
    cases steps with
    | nil => rfl
    | cons step' steps =>
      have rest := ih (tempFiles E k) ((k + 1) % 2) (List.cons_ne_nil step' steps)
      rw [relay_cons_cons, List.getLast?_cons_of_ne_nil, rest]
      intro empty
      rw [empty] at rest
      cases rest

theorem tempFiles_ne (E : Env) (k : Nat) : tempFiles E ((k + 1) % 2) ≠ tempFiles E (k % 2) := by
  intro same
  have names := (String.append_right_inj _).mp same
  rcases Nat.mod_two_eq_zero_or_one k with even | odd
  · rw [Nat.add_mod, even] at names
    revert names
    decide
  · rw [Nat.add_mod, odd] at names
    revert names
    decide

/-- A step on a temporary file reads and writes the same one only where the last
one writes the one it reads. -/
theorem relay_temp_apart_iff (target : String) (k : Nat) (nonempty : steps ≠ []) : (∀ c ∈ relay E target (tempFiles E ((k + 1) % 2)) (k % 2) steps,
      c.input ≠ c.output) ↔ target ≠ tempFiles E ((k + steps.length) % 2) := by
  induction steps generalizing k with
  | nil => exact absurd rfl nonempty
  | cons step steps ih =>
    cases steps with
    | nil => simp [relay, eq_comm]
    | cons step' steps =>
      have rest := ih (k + 1) (List.cons_ne_nil step' steps)
      have index : (k % 2 + 1) % 2 = (k + 1) % 2 := by omega
      have index' : (k + 1 + 1) % 2 = k % 2 := by omega
      have index'' : k + (step :: step' :: steps).length = k + 1 + (step' :: steps).length := by
        rw [List.length_cons, List.length_cons]
        omega
      rw [index'] at rest
      rw [relay_cons_cons, List.forall_mem_cons, index, rest, index'', and_iff_right (tempFiles_ne E k)]

/-- From a file that is no temporary file and not the result. -/
theorem relay_apart_iff (target : String) (steps : List PatchStep) (temporary : ∀ k, input ≠ tempFiles E k) (result : input ≠ target) :
    (∀ c ∈ relay E target input 0 steps, c.input ≠ c.output) ↔
      ¬ (2 ≤ steps.length ∧ target = tempFiles E (steps.length % 2)) := by
  cases steps with
  | nil => simp [relay]
  | cons step steps =>
    cases steps with
    | nil => simp [relay, result]
    | cons step' steps =>
      have rest := relay_temp_apart_iff (E := E) target 1 (List.cons_ne_nil step' steps)
      have count : 1 + (step' :: steps).length = (step :: step' :: steps).length := by
        rw [List.length_cons (a := step)]
        omega
      rw [count] at rest
      rw [relay_cons_cons, List.forall_mem_cons, and_iff_right (temporary 0)]
      refine rest.trans (not_congr ?_)
      rw [and_iff_right (by simp)]

/-! ## The discipline -/

variable {last : DeltaInfo} {file : String}

theorem patchSteps_ne_nil {deltas : List DeltaInfo} (nonempty : deltas ≠ []) (last : DeltaInfo)
    (needsProcessing : Bool) : patchSteps E deltas last needsProcessing ≠ [] := by
  obtain ⟨d, rest, rfl⟩ := List.exists_cons_of_ne_nil nonempty
  simp [patchSteps]

/-- The temporary files are gone when `applyPatches` returns. -/
theorem applyPatches_cleans (deltas : List DeltaInfo) (last : DeltaInfo) (initialFile : Option String)
    (needsProcessing : Bool) (w : World)
    (returns : (applyPatches E deltas last initialFile needsProcessing w).1 ≠ .crashed) :
    (applyPatches E deltas last initialFile needsProcessing w).2.files.read (tempFiles E 0) = none ∧
      (applyPatches E deltas last initialFile needsProcessing w).2.files.read (tempFiles E 1) = none := by
  cases ended : (applySteps E deltas last initialFile needsProcessing (w.emit .applyPatches)).1 with
  | crashed => exact absurd (by simp only [applyPatches, ended]) returns
  | done =>
    simp only [applyPatches, ended]
    exact ⟨FileStore.read_delete_of_none (FileStore.read_delete ..) _, FileStore.read_delete ..⟩
  | failed =>
    simp only [applyPatches, ended]
    exact ⟨FileStore.read_delete_of_none (FileStore.read_delete ..) _, FileStore.read_delete ..⟩

/-- What a build does with its files: `calls` are the native calls it makes, one
after another until one does not succeed. -/
structure Disciplined (E : Env) (deltas : List DeltaInfo) (last : DeltaInfo) (file : String) (needsProcessing : Bool)
    (w : World) : Prop where
  made : applySteps E deltas last (some file) needsProcessing (w.emit .applyPatches) =
    runCalls E (patchCalls E deltas last file needsProcessing) (w.emit .applyPatches)
  order : (patchCalls E deltas last file needsProcessing).map (·.step) = patchSteps E deltas last needsProcessing
  first : (patchCalls E deltas last file needsProcessing).head?.map (·.input) = some file
  handed : (patchCalls E deltas last file needsProcessing).IsChain fun c c' => c'.input = c.output
  apart : ∀ c ∈ patchCalls E deltas last file needsProcessing, c.input ≠ c.output
  result : (patchCalls E deltas last file needsProcessing).getLast?.map (·.output) = some (patchTarget E last)
  cleaned : (applyPatches E deltas last (some file) needsProcessing w).1 ≠ .crashed →
    (applyPatches E deltas last (some file) needsProcessing w).2.files.read (tempFiles E 0) = none ∧
      (applyPatches E deltas last (some file) needsProcessing w).2.files.read (tempFiles E 1) = none

/-- The result has the name of the temporary file that the last call reads. -/
def ResultIsRead (E : Env) (deltas : List DeltaInfo) (last : DeltaInfo) (needsProcessing : Bool) : Prop :=
  2 ≤ (patchSteps E deltas last needsProcessing).length ∧
    patchTarget E last = tempFiles E ((patchSteps E deltas last needsProcessing).length % 2)

/-- **Every native call of a build reads what the one before it wrote, and writes
another file**, unless the result has the name of a temporary file. -/
theorem applyPatches_disciplined {deltas : List DeltaInfo} (last : DeltaInfo) (ends : deltas.getLast? = some last)
    (needsProcessing : Bool) (w : World) {file : String} (temporary : ∀ k, file ≠ tempFiles E k)
    (result : file ≠ patchTarget E last) :
    Disciplined E deltas last file needsProcessing w ↔ ¬ ResultIsRead E deltas last needsProcessing := by
  have nonempty : deltas ≠ [] := by
    rintro rfl
    cases ends
  have steps := patchSteps_ne_nil (E := E) nonempty last needsProcessing
  have apart := relay_apart_iff (patchTarget E last) (patchSteps E deltas last needsProcessing) temporary result
  constructor
  · exact fun disciplined => apart.mp disciplined.apart
  · intro free
    exact ⟨applySteps_calls nonempty last file needsProcessing _, relay_steps .., relay_head steps, relay_isChain ..,
      apart.mpr free, relay_last _ _ _ steps,
      fun returns => applyPatches_cleans deltas last (some file) needsProcessing w returns⟩

/-- Of the initial file of `currentWorld`. -/
theorem initialFile_apart : (∀ k, "/sd/OpenDelta/omni-a.zip" ≠ tempFiles currentServer.env k) ∧
    "/sd/OpenDelta/omni-a.zip" ≠ patchTarget currentServer.env sampleDelta := by
  constructor
  · intro k
    rw [tempFiles]
    split <;> decide
  · decide

/-- A build that adjusts `omni-a.zip` and applies one delta. -/
theorem disciplined_current : Disciplined currentServer.env [sampleDelta] sampleDelta "/sd/OpenDelta/omni-a.zip" true
    currentWorld :=
  (applyPatches_disciplined sampleDelta rfl true currentWorld initialFile_apart.1 initialFile_apart.2).mpr
    fun read => absurd read.2 (by decide)

/-- A delta whose result is called like a temporary file. -/
def temporaryDelta : DeltaInfo := { sampleDelta with out := { sampleDelta.out with name := "temp1" } }

/-- The second call reads and writes `temp1`. -/
theorem temporary_undisciplined : (∀ k, "/sd/OpenDelta/omni-a.zip" ≠ tempFiles currentServer.env k) ∧
    "/sd/OpenDelta/omni-a.zip" ≠ patchTarget currentServer.env temporaryDelta ∧
    ¬ Disciplined currentServer.env [temporaryDelta] temporaryDelta "/sd/OpenDelta/omni-a.zip" true currentWorld := by
  refine ⟨initialFile_apart.1, by decide, fun disciplined => ?_⟩
  exact disciplined.apart ⟨.apply "/sd/OpenDelta/omni-a.update", "/sd/OpenDelta/temp1", "/sd/OpenDelta/temp1"⟩
    (by decide) rfl

end OpenDelta.Service
