import Mathlib.Data.List.Chain
import OpenDelta.Server.Publication

/-!
# Releases

Builds published one after another. Later runs leave the files of earlier ones
alone, so of every build but the last the folder keeps what leads to the next.
-/

namespace OpenDelta.Server

/-! ## Names -/

theorem zip_toList : ".zip".toList = ['.', 'z', 'i', 'p'] := rfl

/-- A matching name, cut at its extension. -/
theorem fileMatch_cut {name : String} (matched : fileMatch name = true) :
    ∃ middle, (getFileNameNoExt name).toList = "omni-".toList ++ middle ∧ name = getFileNameNoExt name ++ ".zip" := by
  rw [fileMatch, Bool.and_eq_true, List.isPrefixOf_iff_prefix, List.isSuffixOf_iff_suffix] at matched
  obtain ⟨⟨rest, start⟩, middle, ending⟩ := matched
  have five : "omni-".toList.length = 5 := rfl
  rw [← start, ← five, List.drop_left] at ending
  have whole : name.toList = "omni-".toList ++ middle ++ ".zip".toList := by
    rw [← start, ← ending, List.append_assoc]
  have base : getFileNameNoExt name = String.ofList ("omni-".toList ++ middle) := by
    rw [getFileNameNoExt, whole, List.reverse_append, zip_toList]
    simp
  refine ⟨middle, by rw [base, String.toList_ofList], ?_⟩
  rw [← String.toList_inj, String.toList_append, base, String.toList_ofList, whole]

/-- Matching names differ by what stands before the extension. -/
theorem getFileNameNoExt_inj {name other : String} (matched : fileMatch name = true)
    (matched' : fileMatch other = true) (same : getFileNameNoExt name = getFileNameNoExt other) : name = other := by
  obtain ⟨-, -, cut⟩ := fileMatch_cut matched
  obtain ⟨-, -, cut'⟩ := fileMatch_cut matched'
  rw [cut, cut', same]

/-- The extensions of what is published. -/
def extensions : List String := [".delta", ".sign", ".update"]

/-- A published name tells its extension. -/
theorem extension_inj {base base' extension extension' : String} (member : extension ∈ extensions)
    (member' : extension' ∈ extensions) (same : base ++ extension = base' ++ extension') :
    base = base' ∧ extension = extension' := by
  have ends := congrArg (fun text : String => text.toList.getLast?) same
  simp only [extensions, List.mem_cons, List.not_mem_nil, or_false] at member member'
  have equal : extension = extension' := by
    rcases member with rfl | rfl | rfl <;> rcases member' with rfl | rfl | rfl <;> first
      | rfl
      | simp at ends
  subst equal
  exact ⟨(String.append_left_inj _).mp same, rfl⟩

/-! ## A release -/

/-- A build that the script can publish, with its other two forms. -/
structure Release (H : Host) where
  name : String
  official : Bytes
  store : Bytes
  signed : Bytes
  matched : fileMatch name = true
  adjusted : H.zipadjust official = some store
  signs : H.minSignAPK store = some signed

variable {H : Host}

namespace Release

def base (r : Release H) : String := getFileNameNoExt r.name

theorem base_inj {r r' : Release H} (same : r.base = r'.base) : r.name = r'.name :=
  getFileNameNoExt_inj r.matched r'.matched same

/-- The outputs of the steps that lead to the next release. -/
def workTo (r r' : Release H) (update sign : Bytes) : Work where
  current := some r'.store
  last := some r.store
  currentSigned := some r'.signed
  lastSigned := some r.signed
  update := some update
  sign := some sign

/-- What the delta file to the next release says. -/
def deltaTo (r r' : Release H) (update sign : Bytes) : Delta :=
  delta H r'.name r.name (some r'.official) (some r.official) (r.workTo r' update sign)

end Release

/-- The script finds this build in the folder. -/
structure Holds (H : Host) (folder : Folder) (r : Release H) : Prop where
  found : fileIn H folder = some r.name
  content : folder.read r.name = some r.official

/-- A build alone in its folder. -/
theorem Holds.alone {r : Release H} (word : firstWord r.name = r.name) : Holds H [(r.name, r.official)] r := by
  refine ⟨?_, by simp [Folder.read]⟩
  rw [fileIn, List.map_singleton, List.filter_cons_of_pos r.matched]
  exact congrArg some word

/-- A copied build is found where there has been none. -/
theorem Holds.copy {folder current : Folder} {r : Release H} (build : Holds H current r)
    (empty : fileIn H folder = none) : Holds H (folder.copy r.name (some r.official)) r := by
  have others : (folder.map Prod.fst).filter fileMatch = [] := by
    rw [fileIn, Option.map_eq_none_iff] at empty
    cases names : (folder.map Prod.fst).filter fileMatch with
    | nil => rfl
    | cons name names' =>
      rw [names, first] at empty
      split at empty
      · cases empty
      · cases empty
  have kept : ((folder.filter fun file => file.1 ≠ r.name).map Prod.fst).filter fileMatch = [] := by
    rw [List.filter_eq_nil_iff] at others ⊢
    intro name member
    obtain ⟨file, inside, rfl⟩ := List.mem_map.mp member
    exact others _ (List.mem_map_of_mem (List.mem_of_mem_filter inside))
  refine ⟨?_, Folder.read_put ..⟩
  have alone : (((folder.copy r.name (some r.official)).map Prod.fst).filter fileMatch) = [r.name] := by
    rw [Folder.copy, Folder.put, List.map_cons, List.filter_cons_of_pos r.matched, kept]
  rw [fileIn, alone]
  exact congrArg some (firstWord_of_fileIn build.found)

/-- The folders after some releases, from a folder without a previous build. Runs
without a new build may come in between. -/
inductive Released (H : Host) : Folders → List (Release H) → Prop where
  | first {s : Folders} {r : Release H} (fate : Step → Fate) (empty : fileIn H s.last = none)
      (build : Holds H s.current r) : Released H (process H fate s).2 [r]
  | next {s : Folders} {releases : List (Release H)} {r : Release H} (fate : Step → Fate) (current : Folder)
      (released : Released H s releases) (fresh : ∀ r' ∈ releases, r'.name ≠ r.name) (build : Holds H current r)
      (works : ∀ last, releases.getLast? = some last → ¬ StepFails H fate { s with current } r.name last.name) :
      Released H (process H fate { s with current }).2 (releases ++ [r])
  | idle {s : Folders} {releases : List (Release H)} (fate : Step → Fate) (current : Folder)
      (released : Released H s releases) (idles : (process H fate { s with current }).1 = 1) :
      Released H (process H fate { s with current }).2 releases

/-! ## Links -/

/-- The published files that lead from a release to the next one. -/
structure Link (H : Host) (publish : Folder) (r r' : Release H) (update sign : Bytes) : Prop where
  updates : H.xdelta3 r.store r'.store = some update
  signs : H.xdelta3 r'.store r'.signed = some sign
  updateFile : publish.read (r.base ++ ".update") = some update
  signFile : publish.read (r.base ++ ".sign") = some sign
  deltaFile : publish.read (r.base ++ ".delta") = some (r.deltaTo r' update sign).bytes

def Linked (H : Host) (publish : Folder) (r r' : Release H) : Prop := ∃ update sign, Link H publish r r' update sign

theorem outFolder_eq (base : String) (r r' : Release H) (update sign : Bytes) (d : Delta) :
    outFolder base (r.workTo r' update sign) d =
      [(base ++ ".delta", d.bytes), (base ++ ".sign", sign), (base ++ ".update", update)] := by
  have names : base ++ ".update" ≠ base ++ ".sign" ∧ base ++ ".sign" ≠ base ++ ".delta" ∧
      base ++ ".update" ≠ base ++ ".delta" := by
    simp only [ne_eq, String.append_right_inj]
    decide
  obtain ⟨first, second, third⟩ := names
  simp [outFolder, Release.workTo, Folder.copy, Folder.put, first, second, third]

/-- Steps that do not fail produce the forms of both releases and their deltas. -/
theorem workOf_eq {s : Folders} {fate : Step → Fate} {r r' : Release H}
    (works : ¬ StepFails H fate s r'.name r.name) (current : s.current.read r'.name = some r'.official)
    (last : s.last.read r.name = some r.official) :
    ∃ update sign, H.xdelta3 r.store r'.store = some update ∧ H.xdelta3 r'.store r'.signed = some sign ∧
      workOf H fate s r'.name r.name = r.workTo r' update sign := by
  rw [StepFails, current, last] at works
  -- Each step has a correct output, and has written it.
  have produced : ∀ step, ∃ bytes, correctOutput H (some r'.official) (some r.official) step = some bytes ∧
      (workOf H fate s r'.name r.name).output step = some bytes := by
    intro step
    by_contra none
    exact works ⟨step, fun bytes correct written => none ⟨bytes, correct, written⟩⟩
  have form : ∀ step bytes, correctOutput H (some r'.official) (some r.official) step = some bytes →
      (workOf H fate s r'.name r.name).output step = some bytes := by
    intro step bytes correct
    obtain ⟨bytes', correct', written⟩ := produced step
    rw [correct] at correct'
    rw [written, correct']
  obtain ⟨update, updates, updateWritten⟩ := produced .update
  obtain ⟨sign, signs, signWritten⟩ := produced .sign
  simp only [correctOutput, Option.bind_some, r.adjusted, r'.adjusted, r'.signs] at updates signs
  refine ⟨update, sign, updates, signs, ?_⟩
  have currentForm := form .adjustCurrent r'.store r'.adjusted
  have lastForm := form .adjustLast r.store r.adjusted
  have currentSigned := form .signCurrent r'.signed
    (by simp only [correctOutput, Option.bind_some, r'.adjusted, r'.signs])
  have lastSigned := form .signLast r.signed (by simp only [correctOutput, Option.bind_some, r.adjusted, r.signs])
  generalize workOf H fate s r'.name r.name = w at *
  cases w
  simp only [Work.output] at currentForm lastForm currentSigned lastSigned updateWritten signWritten
  rw [currentForm, lastForm, currentSigned, lastSigned, updateWritten, signWritten, Release.workTo]

/-- Steps that do what they can do not fail on two releases that have deltas. -/
theorem not_stepFails {s : Folders} {r r' : Release H} (current : s.current.read r'.name = some r'.official)
    (last : s.last.read r.name = some r.official) {update sign : Bytes}
    (updates : H.xdelta3 r.store r'.store = some update) (signs : H.xdelta3 r'.store r'.signed = some sign) :
    ¬ StepFails H (fun _ => .works) s r'.name r.name := by
  rintro ⟨step, fails⟩
  have produced : workOf H (fun _ => .works) s r'.name r.name = r.workTo r' update sign := by
    simp [workOf, work, Fate.ends, zipadjustMain, minSignAPKMain, xdelta3Main, current, last, r.adjusted, r'.adjusted,
      r.signs, r'.signs, updates, signs, Release.workTo]
  rw [produced, current, last] at fails
  cases step with
  | adjustCurrent => exact fails r'.store r'.adjusted rfl
  | adjustLast => exact fails r.store r.adjusted rfl
  | signCurrent => exact fails r'.signed (by simp [correctOutput, r'.adjusted, r'.signs]) rfl
  | signLast => exact fails r.signed (by simp [correctOutput, r.adjusted, r.signs]) rfl
  | update => exact fails update (by simp [correctOutput, r.adjusted, r'.adjusted, updates]) rfl
  | sign => exact fails sign (by simp [correctOutput, r'.adjusted, r'.signs, signs]) rfl

/-- A run that publishes a release links it to the previous one. -/
theorem process_link {s : Folders} {fate : Step → Fate} {r r' : Release H}
    (works : ¬ StepFails H fate s r'.name r.name) (current : Holds H s.current r') (last : Holds H s.last r)
    (ne : r.name ≠ r'.name) :
    Linked H (process H fate s).2.publish r r' ∧ Holds H (process H fate s).2.last r' ∧
      ∀ name, (∀ extension ∈ extensions, name ≠ r.base ++ extension) →
        (process H fate s).2.publish.read name = s.publish.read name := by
  obtain ⟨update, sign, updates, signs, work⟩ := workOf_eq works current.content last.content
  have delta : deltaOf H fate s r'.name r.name = r.deltaTo r' update sign := by
    rw [deltaOf, work, current.content, last.content, Release.deltaTo]
  rw [process_steps ⟨current.found, last.found, ne⟩, work, delta, outFolder_eq]
  simp only
  have distinct : (([(r.base ++ ".delta", (r.deltaTo r' update sign).bytes), (r.base ++ ".sign", sign),
      (r.base ++ ".update", update)] : Folder).map Prod.fst).Nodup := by
    simp only [List.map_cons, List.map_nil, List.nodup_cons, List.mem_cons, List.not_mem_nil, or_false,
      String.append_right_inj, not_false_iff, List.nodup_nil, and_true]
    decide
  refine ⟨⟨update, sign, updates, signs, ?_, ?_, ?_⟩, ?_, ?_⟩
  · exact Folder.read_copyAll (by simp [Release.base]) distinct _
  · exact Folder.read_copyAll (by simp [Release.base]) distinct _
  · exact Folder.read_copyAll (by simp [Release.base]) distinct _
  · rw [current.content]
    exact current.copy rfl
  · intro name other
    refine Folder.read_copyAll_of_notMem ?_ _
    have delta := other ".delta" (by decide)
    have sign := other ".sign" (by decide)
    have update := other ".update" (by decide)
    simpa [Release.base] using ⟨delta, sign, update⟩

/-- Links stay as they are while their files do. -/
theorem Linked.of_read {publish publish' : Folder} {r r' : Release H} (linked : Linked H publish r r')
    (same : ∀ extension ∈ extensions, publish'.read (r.base ++ extension) = publish.read (r.base ++ extension)) :
    Linked H publish' r r' := by
  obtain ⟨update, sign, link⟩ := linked
  refine ⟨update, sign, link.updates, link.signs, ?_, ?_, ?_⟩
  · rw [same ".update" (by decide), link.updateFile]
  · rw [same ".sign" (by decide), link.signFile]
  · rw [same ".delta" (by decide), link.deltaFile]

/-- A run without a new build changes nothing but the folder it looks in. -/
theorem process_idle {s : Folders} {fate : Step → Fate} (idles : (process H fate s).1 = 1) :
    (process H fate s).2 = s := by
  unfold process at idles ⊢
  split at idles
  · rfl
  · cases idles
  · split at idles
    · rename_i same
      rw [if_pos same]
    · cases idles

/-- What holds after some releases. -/
structure Releases (H : Host) (s : Folders) (releases : List (Release H)) : Prop where
  newest : ∃ r, releases.getLast? = some r ∧ Holds H s.last r
  distinct : (releases.map Release.name).Nodup
  links : releases.IsChain (Linked H s.publish)

/-- A step of a chain depends on its first element alone. -/
theorem isChain_concat_imp {α : Type} {R S : α → α → Prop} {front : List α} {last : α}
    (chain : (front ++ [last]).IsChain R) (step : ∀ a ∈ front, ∀ b, R a b → S a b) : (front ++ [last]).IsChain S := by
  induction front with
  | nil => exact .singleton last
  | cons a front ih =>
    rw [List.forall_mem_cons] at step
    rw [List.cons_append, List.isChain_cons] at chain ⊢
    exact ⟨fun b next => step.1 b (chain.1 b next), ih chain.2 step.2⟩

theorem Released.next_releases {s : Folders} {releases : List (Release H)} {r : Release H} {fate : Step → Fate}
    {current : Folder} (before : Releases H s releases) (fresh : ∀ r' ∈ releases, r'.name ≠ r.name)
    (build : Holds H current r)
    (works : ∀ last, releases.getLast? = some last → ¬ StepFails H fate { s with current } r.name last.name) :
    Releases H (process H fate { s with current }).2 (releases ++ [r]) := by
  obtain ⟨⟨last, isLast, kept⟩, distinct, links⟩ := before
  obtain ⟨older, rfl⟩ := List.getLast?_eq_some_iff.mp isLast
  obtain ⟨linked, holds, others⟩ :=
    process_link (works last isLast) build kept (fresh last (List.mem_append_right _ (List.mem_singleton_self _)))
  refine ⟨⟨r, by simp, holds⟩, ?_, ?_⟩
  · rw [List.map_append, List.nodup_append]
    refine ⟨distinct, by simp, ?_⟩
    intro name member other single
    obtain ⟨r', inside, rfl⟩ := List.mem_map.mp member
    rw [List.map_singleton, List.mem_singleton] at single
    rw [single]
    exact fresh r' inside
  · rw [List.isChain_append]
    refine ⟨?_, .singleton r, ?_⟩
    · -- The new files are those of the last release, whose name no release before it has.
      refine isChain_concat_imp links fun a inside b link => link.of_read fun extension member => ?_
      refine others _ fun extension' member' same => ?_
      have name := Release.base_inj (extension_inj member member' same).1
      rw [List.map_append, List.nodup_append] at distinct
      exact distinct.2.2 a.name (List.mem_map_of_mem inside) last.name (by simp) name
    · intro a isLast b isHead
      simp only [List.getLast?_concat, List.head?_cons, Option.mem_def, Option.some.injEq] at isLast isHead
      rw [← isLast, ← isHead]
      exact linked

/-- **The releases stay linked.** -/
theorem Released.releases {s : Folders} {releases : List (Release H)} (released : Released H s releases) :
    Releases H s releases := by
  induction released with
  | @first s r fate empty build =>
    have run : (process H fate s).2 = { s with last := s.last.copy r.name (some r.official) } := by
      simp only [process, build.found, empty, build.content]
    rw [run]
    exact ⟨⟨r, rfl, build.copy empty⟩, by simp, .singleton r⟩
  | next fate current _ fresh build works ih => exact Released.next_releases ih fresh build works
  | idle fate current _ idles ih =>
    rw [process_idle idles]
    exact ⟨ih.newest, ih.distinct, ih.links⟩

end OpenDelta.Server
