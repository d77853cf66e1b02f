import Mathlib.Data.List.TakeWhile
import OpenDelta.Server.Script

/-!
# What a run publishes

Nothing in the script depends on how a step ends: behind the first one it always
copies `out` to the published folder and replaces the previous build.
-/

namespace OpenDelta.Server

namespace Folder

@[simp] theorem read_put (folder : Folder) (name : String) (bytes : Bytes) :
    (folder.put name bytes).read name = some bytes := by
  simp [read, put]

theorem read_put_of_ne {folder : Folder} {name other : String} (ne : other ≠ name) (bytes : Bytes) :
    (folder.put name bytes).read other = folder.read other := by
  rw [read, put, List.find?_cons_of_neg (by simpa using ne.symm), List.find?_filter]
  congr 2
  funext file
  by_cases same : file.1 = other
  · simp [same, ne]
  · simp [same]

/-- A name that is not copied keeps its file. -/
theorem read_copyAll_of_notMem {out : Folder} {name : String} (absent : name ∉ out.map Prod.fst)
    (folder : Folder) : (folder.copyAll out).read name = folder.read name := by
  induction out generalizing folder with
  | nil => rfl
  | cons file out ih =>
    rw [List.map_cons, List.mem_cons, not_or] at absent
    rw [copyAll, List.foldl_cons, ← copyAll, ih absent.2, read_put_of_ne absent.1]

/-- Of files with different names, each is copied. -/
theorem read_copyAll {out : Folder} {name : String} {bytes : Bytes} (member : (name, bytes) ∈ out)
    (distinct : (out.map Prod.fst).Nodup) (folder : Folder) :
    (folder.copyAll out).read name = some bytes := by
  induction out generalizing folder with
  | nil => cases member
  | cons file out ih =>
    rw [List.map_cons, List.nodup_cons] at distinct
    rw [copyAll, List.foldl_cons, ← copyAll]
    rcases List.mem_cons.mp member with rfl | member
    · rw [read_copyAll_of_notMem distinct.1, read_put]
    · exact ih member distinct.2 _

end Folder

variable {H : Host} {fate : Step → Fate} {s : Folders} {fileCurrent fileLast : String}

/-- The run gets to the external steps, for these two builds. -/
def Steps (H : Host) (s : Folders) (fileCurrent fileLast : String) : Prop :=
  fileIn H s.current = some fileCurrent ∧ fileIn H s.last = some fileLast ∧ fileLast ≠ fileCurrent

variable (H fate s) in
/-- The steps of a run on these two builds. -/
def workOf (fileCurrent fileLast : String) : Work :=
  work H fate (s.current.read fileCurrent) (s.last.read fileLast)

variable (H fate s) in
/-- The delta file of a run on these two builds. -/
def deltaOf (fileCurrent fileLast : String) : Delta :=
  delta H fileCurrent fileLast (s.current.read fileCurrent) (s.last.read fileLast)
    (workOf H fate s fileCurrent fileLast)

/-- What a run leaves that gets to the steps. -/
theorem process_steps (steps : Steps H s fileCurrent fileLast) :
    process H fate s = (0,
      { current := s.current
        last := Folder.copy [] fileCurrent (s.current.read fileCurrent)
        publish := s.publish.copyAll (outFolder (getFileNameNoExt fileLast) (workOf H fate s fileCurrent fileLast)
          (deltaOf H fate s fileCurrent fileLast)) }) := by
  obtain ⟨current, last, ne⟩ := steps
  rw [process, current, last]
  exact if_neg ne

/-- A run that does not get to the steps publishes nothing. -/
theorem process_publish_of_not_steps (stops : ¬∃ fileCurrent fileLast, Steps H s fileCurrent fileLast) :
    (process H fate s).2.publish = s.publish := by
  unfold process
  split
  · rfl
  · rfl
  · split
    · rfl
    · rename_i current last ne
      exact absurd ⟨_, _, current, last, ne⟩ stops

/-! ## Failing steps -/

/-- The file each step is to produce from the two builds; there is none when a
program refuses what it is given. -/
def correctOutput (H : Host) (current last : Option Bytes) : Step → Option Bytes
  | .adjustCurrent => current.bind H.zipadjust
  | .adjustLast => last.bind H.zipadjust
  | .signCurrent => (current.bind H.zipadjust).bind H.minSignAPK
  | .signLast => (last.bind H.zipadjust).bind H.minSignAPK
  | .update => (last.bind H.zipadjust).bind fun source => (current.bind H.zipadjust).bind (H.xdelta3 source)
  | .sign =>
    (current.bind H.zipadjust).bind fun source =>
      ((current.bind H.zipadjust).bind H.minSignAPK).bind (H.xdelta3 source)

/-- The file at the output path of a step. -/
def Work.output (w : Work) : Step → Option Bytes
  | .adjustCurrent => w.current
  | .adjustLast => w.last
  | .signCurrent => w.currentSigned
  | .signLast => w.lastSigned
  | .update => w.update
  | .sign => w.sign

/-- Some step of a run fails to produce its correct output file. -/
def StepFails (H : Host) (fate : Step → Fate) (s : Folders) (fileCurrent fileLast : String) : Prop :=
  ∃ step, ∀ bytes, correctOutput H (s.current.read fileCurrent) (s.last.read fileLast) step = some bytes →
    (workOf H fate s fileCurrent fileLast).output step ≠ some bytes

variable (H fate s) in
/-- A run with a failing step changes neither what is published nor the previous build. -/
def AllOrNothing : Prop :=
  ∀ fileCurrent fileLast, Steps H s fileCurrent fileLast → StepFails H fate s fileCurrent fileLast →
    (process H fate s).2.publish = s.publish ∧ (process H fate s).2.last = s.last

/-! ## The previous build -/

theorem first_mem {precedes : String → String → Bool} {names : List String} {name : String}
    (found : first precedes names = some name) : name ∈ names := by
  induction names generalizing name with
  | nil => cases found
  | cons n names ih =>
    rw [first] at found
    split at found
    · cases found
      exact List.mem_cons_self ..
    · rename_i other later
      rw [Option.some.injEq] at found
      split at found
      · exact found ▸ List.mem_cons_self ..
      · exact found ▸ List.mem_cons_of_mem _ (ih later)

@[simp] theorem firstWord_firstWord (text : String) : firstWord (firstWord text) = firstWord text := by
  rw [firstWord, firstWord, String.toList_ofList, List.takeWhile_idem]

/-- The name of a build is one word. -/
theorem firstWord_of_fileIn {folder : Folder} {name : String} (found : fileIn H folder = some name) :
    firstWord name = name := by
  obtain ⟨text, -, rfl⟩ := Option.map_eq_some_iff.mp found
  exact firstWord_firstWord text

/-- In a folder with at most one file, no other build is found. -/
theorem fileIn_copy {name other : String} (word : firstWord name = name) {file : Option Bytes}
    (found : fileIn H (Folder.copy [] name file) = some other) : other = name := by
  obtain ⟨text, listed, rfl⟩ := Option.map_eq_some_iff.mp found
  have member := (List.mem_filter.mp (first_mem listed)).1
  cases file with
  | none => cases member
  | some bytes =>
    obtain rfl : text = name := List.mem_singleton.mp member
    exact word

/-- A run that gets to the steps replaces the previous build, whatever they did. -/
theorem process_last_ne (steps : Steps H s fileCurrent fileLast) : (process H fate s).2.last ≠ s.last := by
  intro same
  have found := steps.2.1
  rw [← same, process_steps steps] at found
  exact steps.2.2 (fileIn_copy (firstWord_of_fileIn steps.1) found)

/-- Afterwards the same build is not taken up again. -/
theorem process_retry (steps : Steps H s fileCurrent fileLast) (fate' : Step → Fate) :
    (process H fate' (process H fate s).2).2.publish = (process H fate s).2.publish := by
  refine process_publish_of_not_steps fun ⟨current, last, again⟩ => ?_
  obtain ⟨found, previous, ne⟩ := again
  rw [process_steps steps] at found previous
  rw [steps.1, Option.some.injEq] at found
  exact ne ((fileIn_copy (firstWord_of_fileIn steps.1) previous).trans found)

variable (H fate s) in
/-- **A run is all-or-nothing exactly if no step of it fails.** -/
theorem allOrNothing_iff : AllOrNothing H fate s ↔
    ∀ fileCurrent fileLast, Steps H s fileCurrent fileLast → ¬StepFails H fate s fileCurrent fileLast := by
  constructor
  · intro nothing fileCurrent fileLast steps fails
    obtain ⟨-, kept⟩ := nothing fileCurrent fileLast steps fails
    exact process_last_ne steps kept
  · intro works fileCurrent fileLast steps fails
    exact absurd fails (works fileCurrent fileLast steps)

/-! ### A failing `xdelta3` -/

/-- Programs that write what they read. -/
def copyingHost : Host where
  precedes a b := decide (a < b)
  md5sum _ := ""
  zipadjust := some
  minSignAPK zip := some (zip ++ [0])
  xdelta3 _ target := some target

/-- The second build after the first. -/
def secondBuild : Folders where
  current := [("omni-2.zip", [2])]
  last := [("omni-1.zip", [1])]
  publish := []

/-- Only the update delta fails. -/
def updateFails : Step → Fate
  | .update => .fails none 1
  | _ => .works

/-- The delta file is published without the update, and the first build is gone. -/
theorem publishes_broken_chain : ¬AllOrNothing copyingHost updateFails secondBuild ∧
    (process copyingHost updateFails secondBuild).2.publish.map Prod.fst = ["omni-1.sign", "omni-1.delta"] ∧
    (process copyingHost updateFails secondBuild).2.last.read "omni-1.zip" = none := by
  have steps : Steps copyingHost secondBuild "omni-2.zip" "omni-1.zip" := by
    refine ⟨?_, ?_, ?_⟩
    · decide
    · decide
    · decide
  refine ⟨?_, ?_, ?_⟩
  · intro nothing
    refine process_last_ne steps (nothing _ _ steps ⟨.update, fun bytes _ => ?_⟩).2
    nofun
  · rw [process_steps steps]
    decide
  · rw [process_steps steps]
    decide

end OpenDelta.Server
