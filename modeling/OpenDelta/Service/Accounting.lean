import Mathlib.Data.List.Pairwise
import OpenDelta.Service.Documents

/-!
# What `downloadFiles` reports

The listener of `downloadFiles` adds the sizes of the files before to what a file
has received. The offset grows by the size of every update file, fetched or not,
while the total counts those that are fetched.
-/

namespace OpenDelta.Service

/-- `current` and `total` of a report. -/
structure Report where
  current : Int64
  total : Int64
  deriving DecidableEq

/-- The progress of `downloadFiles`: `offset`, `total` and `lastTime` are
`last[0]` to `last[2]`; the readings of the clock so far, the reports published and
the bytes written to files. -/
structure Progress where
  offset : Int64
  total : Int64
  lastTime : Int64
  readings : Nat
  reports : List Report
  transferred : Nat

namespace Progress

/-- `onProgress`; at most one report in 16 milliseconds is published. -/
def onProgress (clock : Nat → Int64) (current : Int64) (p : Progress) : Progress :=
  let now := clock p.readings
  let p := { p with readings := p.readings + 1 }
  if p.lastTime + 16 ≤ now then
    { p with reports := p.reports ++ [⟨current + p.offset, p.total⟩], lastTime := now }
  else p

/-- A chunk is written to the file and reported. -/
def write (clock : Nat → Int64) (chunk : Bytes) (recv : Int64) (p : Progress) : Progress :=
  onProgress clock recv { p with transferred := p.transferred + chunk.length }

def report (current : Int64) (p : Progress) : Progress := { p with reports := p.reports ++ [⟨current, p.total⟩] }

end Progress

section Downloads

variable (E : Env) (C : Conditions) (clock : Nat → Int64)

/-- The reports of `receive`. -/
def receiveProgress : List Bytes → Nat → Int64 → Progress → Progress
  | [], _, _, p => p
  | [] :: _, _, _, p => p
  | chunk :: rest, n, recv, p =>
    if C.stopDownload n then p
    else
      let recv := recv + fileLength chunk
      receiveProgress rest (n + 1) recv (p.write clock chunk recv)

/-- The reports of `downloadUrlFile`. -/
def downloadUrlFileProgress (url : String) (w : World) (p : Progress) : Progress :=
  match E.server url with
  | none => p
  | some response =>
    if response.statusCode ≠ 200 then p
    else if 0 < response.intLength ∧ response.intLength < 4 * 1024 * 1024 * 1024 then
      receiveProgress C clock response.chunks w.stopReads 0 p
    else p

/-- The reports of `downloadDeltaFile`. -/
def downloadDeltaFileProgress (urlBase name : String) (tag : Option String) (force : Bool) (w : World) (p : Progress) :
    Progress :=
  match tag with
  | some _ => p
  | none =>
    if force || C.networkState w.networkReads then
      downloadUrlFileProgress E C clock (urlBase ++ name) (w.lookUnless force) p
    else p

/-- The reports of the loop over the update files. -/
def downloadUpdatesProgress (force : Bool) : List DeltaInfo → World → Progress → Progress
  | [], _, p => p
  | d :: ds, w, p =>
    let result := downloadDeltaFile E C E.config.urlBaseUpdate d.update.name d.update.tag d.update.update.md5 force w
    let p := downloadDeltaFileProgress E C clock E.config.urlBaseUpdate d.update.name d.update.tag force w p
    if result.1 then downloadUpdatesProgress force ds result.2 { p with offset := p.offset + d.update.update.size } else p

/-- The reports of `downloadFiles`. -/
def downloadFilesProgress (deltas : List DeltaInfo) (last : DeltaInfo) (totalDownloadSize : Int64) (force : Bool)
    (w : World) : Progress :=
  let p : Progress :=
    { offset := 0, total := totalDownloadSize, lastTime := 0, readings := 0, reports := [], transferred := 0 }
  let p := p.report 0
  let w := (w.emit .downloadFiles).updateState .downloading
  let updates := downloadUpdates E C force deltas w
  let p := downloadUpdatesProgress E C clock force deltas w p
  if updates.1 then
    let result :=
      if E.config.applySignature then
        downloadDeltaFile E C E.config.urlBaseUpdate last.signature.name last.signature.tag
          last.signature.update.md5 force updates.2
      else (true, updates.2)
    let p :=
      if E.config.applySignature then
        downloadDeltaFileProgress E C clock E.config.urlBaseUpdate last.signature.name last.signature.tag force updates.2 p
      else p
    if result.1 then p.report totalDownloadSize else p
  else p

end Downloads

/-! ## Downloads that go through -/

section Through

variable (E : Env) (C : Conditions) (clock : Nat → Int64)

/-- The chunks of a body. -/
def HttpResponse.parts (r : HttpResponse) : List Bytes := r.chunks.takeWhile (· ≠ [])

/-- The chunks of a file that is fetched. -/
def chunksOf (f : FileUpdate) : List Bytes :=
  ((E.server (E.config.urlBaseUpdate ++ f.name)).map HttpResponse.parts).getD []

namespace Progress

/-- A whole body is received. -/
def receiveAll : List Bytes → Int64 → Progress → Progress
  | [], _, p => p
  | chunk :: rest, recv, p =>
    receiveAll rest (recv + fileLength chunk) (p.write clock chunk (recv + fileLength chunk))

/-- A file is fetched if it is not there. -/
def file (f : FileUpdate) (p : Progress) : Progress :=
  if f.tag.isSome then p else p.receiveAll clock (chunksOf E f) 0

/-- All files are fetched that are not there. -/
def files : List FileUpdate → Progress → Progress
  | [], p => p
  | f :: fs, p =>
    let p := p.file E clock f
    files fs { p with offset := p.offset + f.update.size }

end Progress

variable {E C clock}

theorem receiveProgress_eq {complete : Bool} {chunks : List Bytes} {n : Nat} {got : Bytes}
    (ok : (receive C complete chunks n got).ok = true) (recv : Int64) (p : Progress) :
    receiveProgress C clock chunks n recv p = p.receiveAll clock (chunks.takeWhile (· ≠ [])) recv := by
  induction chunks generalizing n got recv p with
  | nil => rfl
  | cons chunk rest ih =>
    cases chunk with
    | nil => rfl
    | cons b bytes =>
      rw [receive] at ok
      split at ok
      · cases ok
      · next going =>
        rw [receiveProgress, if_neg going, ih ok, List.takeWhile_cons_of_pos (by simp), Progress.receiveAll]
        · simp
      · simp

theorem downloadUrlFileProgress_eq {url path md5 : String} {w : World} (ok : (downloadUrlFile E C url path md5 w).1 = true)
    (p : Progress) : downloadUrlFileProgress E C clock url w p =
      p.receiveAll clock (((E.server url).map HttpResponse.parts).getD []) 0 := by
  unfold downloadUrlFile at ok
  unfold downloadUrlFileProgress
  cases served : E.server url with
  | none =>
    rw [served] at ok
    cases ok
  | some response =>
    simp only [served] at ok
    split at ok
    · cases ok
    · next found =>
      rw [receiveFile] at ok
      split at ok
      · next fits =>
        rw [Bool.and_eq_true] at ok
        simp only [if_neg found, if_pos fits, receiveProgress_eq ok.1, Option.map_some, Option.getD_some, HttpResponse.parts]
      · cases ok

/-- A file that is fetched. -/
theorem downloadDeltaFileProgress_eq {f : FileUpdate} {md5 : String} {force : Bool} {w : World}
    (ok : (downloadDeltaFile E C E.config.urlBaseUpdate f.name f.tag md5 force w).1 = true) (p : Progress) :
    downloadDeltaFileProgress E C clock E.config.urlBaseUpdate f.name f.tag force w p = p.file E clock f := by
  unfold downloadDeltaFile at ok
  unfold downloadDeltaFileProgress Progress.file
  cases tag : f.tag with
  | some path => rfl
  | none =>
    simp only [tag] at ok
    split at ok
    · next allowed =>
      simp only [if_pos allowed, Option.isSome_none, Bool.false_eq_true, if_false, chunksOf]
      split at ok
      · next received =>
        exact downloadUrlFileProgress_eq received p
      · split at ok <;> cases ok
    · cases ok

variable (clock) in
theorem downloadUpdatesProgress_eq {force : Bool} {ds : List DeltaInfo} {w : World}
    (ok : (downloadUpdates E C force ds w).1 = true) (p : Progress) :
    downloadUpdatesProgress E C clock force ds w p = p.files E clock (ds.map (·.update)) := by
  induction ds generalizing w p with
  | nil => rfl
  | cons d ds ih =>
    rw [downloadUpdates] at ok
    split at ok
    · next here =>
      rw [downloadUpdatesProgress, downloadDeltaFileProgress_eq here]
      simp only [if_pos here, List.map_cons, Progress.files]
      exact ih ok _
    · cases ok

variable (E) in
/-- The files of a chain, in the order they are fetched. -/
def deltaFiles (deltas : List DeltaInfo) (last : DeltaInfo) : List FileUpdate :=
  deltas.map (·.update) ++ if E.config.applySignature then [last.signature] else []

/-- The listener when `downloadFiles` has reported its start. -/
def Progress.start (total : Int64) : Progress :=
  { offset := 0, total, lastTime := 0, readings := 0, reports := [⟨0, total⟩], transferred := 0 }

theorem Progress.files_append (fs gs : List FileUpdate) (p : Progress) :
    p.files E clock (fs ++ gs) = (p.files E clock fs).files E clock gs := by
  induction fs generalizing p with
  | nil => rfl
  | cons f fs ih => exact ih _

theorem Progress.write_total (chunk : Bytes) (recv : Int64) (p : Progress) : (p.write clock chunk recv).total = p.total := by
  unfold Progress.write Progress.onProgress
  dsimp only
  split <;> rfl

theorem Progress.write_offset (chunk : Bytes) (recv : Int64) (p : Progress) : (p.write clock chunk recv).offset = p.offset := by
  unfold Progress.write Progress.onProgress
  dsimp only
  split <;> rfl

theorem Progress.write_transferred (chunk : Bytes) (recv : Int64) (p : Progress) :
    (p.write clock chunk recv).transferred = p.transferred + chunk.length := by
  unfold Progress.write Progress.onProgress
  dsimp only
  split <;> rfl

/-- What the chunks of a body leave alone, and what they add. -/
theorem Progress.receiveAll_fields (clock : Nat → Int64) (chunks : List Bytes) (recv : Int64) (p : Progress) :
    (p.receiveAll clock chunks recv).total = p.total ∧ (p.receiveAll clock chunks recv).offset = p.offset ∧
      (p.receiveAll clock chunks recv).transferred = p.transferred + chunks.flatten.length := by
  induction chunks generalizing recv p with
  | nil => exact ⟨rfl, rfl, rfl⟩
  | cons chunk rest ih =>
    obtain ⟨total, offset, transferred⟩ := ih (recv + fileLength chunk) (p.write clock chunk (recv + fileLength chunk))
    rw [Progress.write_total] at total
    rw [Progress.write_offset] at offset
    rw [Progress.write_transferred] at transferred
    refine ⟨total, offset, transferred.trans ?_⟩
    rw [List.flatten_cons, List.length_append, Nat.add_assoc]

theorem Progress.file_total (f : FileUpdate) (p : Progress) : (p.file E clock f).total = p.total := by
  unfold Progress.file
  split
  · rfl
  · exact (Progress.receiveAll_fields _ _ _ _).1

theorem Progress.files_total (fs : List FileUpdate) (p : Progress) : (p.files E clock fs).total = p.total := by
  induction fs generalizing p with
  | nil => rfl
  | cons f fs ih => exact (ih _).trans (Progress.file_total f p)

variable (clock) in
/-- A run of `downloadFiles` that goes through, by the files of the chain. -/
theorem downloadFilesProgress_eq {deltas : List DeltaInfo} {last : DeltaInfo} {force : Bool} {w : World}
    (ok : (downloadFiles E C deltas last force w).1 = true) (total : Int64) :
    (downloadFilesProgress E C clock deltas last total force w).transferred =
        ((Progress.start total).files E clock (deltaFiles E deltas last)).transferred ∧
      (downloadFilesProgress E C clock deltas last total force w).reports =
        ((Progress.start total).files E clock (deltaFiles E deltas last)).reports ++ [⟨total, total⟩] := by
  rw [downloadFiles] at ok
  split at ok
  · next updates =>
    have through := downloadUpdatesProgress_eq clock updates (Progress.start total)
    have start : Progress.report 0 { offset := 0, total, lastTime := 0, readings := 0, reports := [], transferred := 0 } =
        Progress.start total := rfl
    simp only [downloadFilesProgress, start, through, if_pos updates, deltaFiles, Progress.files_append]
    cases signed : E.config.applySignature with
    | false =>
      simp only [Bool.false_eq_true, if_false, Progress.files, Progress.report, Progress.files_total, if_true]
      exact ⟨trivial, rfl⟩
    | true =>
      simp only [signed, if_true] at ok
      split at ok
      · next signature =>
        simp only [if_true, if_pos signature, Progress.files, Progress.report, downloadDeltaFileProgress_eq signature,
          Progress.file_total, Progress.files_total]
        exact ⟨trivial, rfl⟩
      · cases ok
  · cases ok

end Through

/-! ## Reports in order -/

/-- A sum that fits. -/
theorem toInt_add_of_fits {a b : Int64} (low : 0 ≤ a.toInt + b.toInt) (high : a.toInt + b.toInt < 2 ^ 63) :
    (a + b).toInt = a.toInt + b.toInt := by
  rw [Int64.toInt_add, Int.bmod_eq_of_le (by omega) (by omega)]

theorem fileLength_toInt (bytes : Bytes) (short : bytes.length < 2 ^ 63) : (fileLength bytes).toInt = bytes.length :=
  Int64.toInt_ofNat_of_lt short

/-- Reports that never decrease and are at most `bound` so far. -/
structure Steady (p : Progress) (bound : Int) : Prop where
  sorted : p.reports.Pairwise fun r r' => r.current.toInt ≤ r'.current.toInt
  bounded : ∀ r ∈ p.reports, r.current.toInt ≤ bound
  totals : ∀ r ∈ p.reports, r.total = p.total

variable {E : Env} {clock : Nat → Int64}

theorem Steady.weaken {p : Progress} {bound bound' : Int} (steady : Steady p bound) (le : bound ≤ bound') :
    Steady p bound' :=
  ⟨steady.sorted, fun r within => Int.le_trans (steady.bounded r within) le, steady.totals⟩

theorem Steady.snoc {p : Progress} {bound bound' : Int} (steady : Steady p bound) {r : Report} (above : bound ≤ r.current.toInt)
    (below : r.current.toInt ≤ bound') (total : r.total = p.total) :
    Steady { p with reports := p.reports ++ [r] } bound' where
  sorted := by
    refine List.pairwise_append.mpr ⟨steady.sorted, List.pairwise_singleton _ _, ?_⟩
    intro r' within r'' last
    rw [List.mem_singleton.mp last]
    exact Int.le_trans (steady.bounded r' within) above
  bounded := by
    intro r' within
    rcases List.mem_append.mp within with before | last
    · exact Int.le_trans (steady.bounded r' before) (Int.le_trans above below)
    · rw [List.mem_singleton.mp last]
      exact below
  totals := by
    intro r' within
    rcases List.mem_append.mp within with before | last
    · exact steady.totals r' before
    · rw [List.mem_singleton.mp last]
      exact total

/-- A chunk that is reported or not. -/
theorem Steady.write (clock : Nat → Int64) {p : Progress} {bound : Int} (steady : Steady p bound) (chunk : Bytes) {recv : Int64}
    (above : bound ≤ (recv + p.offset).toInt) : Steady (p.write clock chunk recv) (recv + p.offset).toInt := by
  unfold Progress.write Progress.onProgress
  dsimp only
  split
  · have next := steady.snoc (r := ⟨recv + p.offset, p.total⟩) above (Int.le_refl _) rfl
    exact ⟨next.sorted, next.bounded, next.totals⟩
  · have same := steady.weaken above
    exact ⟨same.sorted, same.bounded, same.totals⟩

/-- A body, when the offset is what was fetched before it. -/
theorem Steady.receiveAll (clock : Nat → Int64) {chunks : List Bytes} {p : Progress} {bound : Int} (steady : Steady p bound)
    (recv : Int64) (low : 0 ≤ recv.toInt) (lowOffset : 0 ≤ p.offset.toInt) (here : p.offset.toInt + recv.toInt = bound)
    (fits : bound + chunks.flatten.length < 2 ^ 63) :
    Steady (p.receiveAll clock chunks recv) (bound + chunks.flatten.length) := by
  induction chunks generalizing p bound recv with
  | nil => exact steady.weaken (by simp)
  | cons chunk rest ih =>
    rw [List.flatten_cons, List.length_append] at fits ⊢
    have length := fileLength_toInt chunk (by omega)
    have grown : (recv + fileLength chunk).toInt = recv.toInt + chunk.length := by
      rw [toInt_add_of_fits (by omega) (by omega), length]
    have current : (recv + fileLength chunk + p.offset).toInt = bound + chunk.length := by
      rw [toInt_add_of_fits (by omega) (by omega), grown]
      omega
    have above : bound ≤ (recv + fileLength chunk + p.offset).toInt := by omega
    have next := steady.write clock chunk above
    rw [current] at next
    have lowNext : 0 ≤ (recv + fileLength chunk).toInt := by omega
    rw [Int.natCast_add, ← Int.add_assoc]
    exact ih next _ lowNext (by rwa [Progress.write_offset]) (by rw [Progress.write_offset]; omega) (by omega)

/-- A file's size in the metadata is that of a file, and of the body where it is
fetched. -/
structure FileSized (E : Env) (f : FileUpdate) : Prop where
  nonneg : 0 ≤ f.update.size.toInt
  body : f.tag = none → ((chunksOf E f).flatten.length : Int) = f.update.size.toInt

/-- The sizes of the files that are fetched. -/
def fetchedSize : List FileUpdate → Int
  | [] => 0
  | f :: fs => (if f.tag.isSome then 0 else f.update.size.toInt) + fetchedSize fs

/-- The sizes of all files. -/
def wholeSize : List FileUpdate → Int
  | [] => 0
  | f :: fs => f.update.size.toInt + wholeSize fs

/-- No file that is there stands before one that is fetched, unless one of them
is empty. -/
def CachedLast (fs : List FileUpdate) : Prop :=
  fs.Pairwise fun f g => f.tag.isSome = true → g.tag = none → f.update.size = 0 ∨ g.update.size = 0

/-- Something is left to be fetched. -/
def Pending (fs : List FileUpdate) : Prop := ∃ g ∈ fs, g.tag = none ∧ g.update.size ≠ 0

theorem fetchedSize_cached {f : FileUpdate} (cached : f.tag.isSome = true) (fs : List FileUpdate) :
    fetchedSize (f :: fs) = fetchedSize fs := by
  rw [fetchedSize, if_pos cached, Int.zero_add]

theorem fetchedSize_missing {f : FileUpdate} (missing : f.tag = none) (fs : List FileUpdate) :
    fetchedSize (f :: fs) = f.update.size.toInt + fetchedSize fs := by
  rw [fetchedSize, missing]
  rfl

theorem Progress.file_cached {f : FileUpdate} (cached : f.tag.isSome = true) (p : Progress) : p.file E clock f = p := by
  rw [Progress.file, if_pos cached]

theorem Progress.file_missing {f : FileUpdate} (missing : f.tag = none) (p : Progress) :
    p.file E clock f = p.receiveAll clock (chunksOf E f) 0 := by
  rw [Progress.file, missing]
  rfl

theorem fetchedSize_nonneg {fs : List FileUpdate} (sized : ∀ f ∈ fs, FileSized E f) : 0 ≤ fetchedSize fs := by
  induction fs with
  | nil => exact Int.le_refl 0
  | cons f fs ih =>
    have here := (sized f List.mem_cons_self).nonneg
    have later := ih fun g within => sized g (List.mem_cons_of_mem f within)
    rw [fetchedSize]
    split <;> omega

/-- The chunks of a body are not empty. -/
theorem chunksOf_ne_nil {f : FileUpdate} : ∀ chunk ∈ chunksOf E f, chunk ≠ [] := by
  intro chunk within
  unfold chunksOf at within
  cases served : E.server (E.config.urlBaseUpdate ++ f.name) with
  | none =>
    rw [served] at within
    cases within
  | some response =>
    rw [served] at within
    have all := List.all_eq_true.mp List.all_takeWhile chunk within
    exact of_decide_eq_true all

theorem chunksOf_of_empty {f : FileUpdate} (sized : FileSized E f) (missing : f.tag = none) (empty : f.update.size = 0) :
    chunksOf E f = [] := by
  have length := sized.body missing
  rw [empty] at length
  have none : (chunksOf E f).flatten = [] := List.eq_nil_of_length_eq_zero (Int.natCast_eq_zero.mp length)
  refine List.eq_nil_iff_forall_not_mem.mpr fun chunk within => chunksOf_ne_nil chunk within ?_
  exact List.flatten_eq_nil_iff.mp none chunk within

theorem toInt_eq_zero_iff {a : Int64} : a.toInt = 0 ↔ a = 0 := by
  rw [← Int64.toInt_inj]
  rfl

theorem Steady.files (clock : Nat → Int64) {fs : List FileUpdate} {p : Progress} {bound : Int} (steady : Steady p bound)
    (sized : ∀ f ∈ fs, FileSized E f) (cachedLast : CachedLast fs) (low : 0 ≤ bound)
    (here : Pending fs → p.offset.toInt = bound) (fits : bound + fetchedSize fs < 2 ^ 63) :
    Steady (p.files E clock fs) (bound + fetchedSize fs) := by
  induction fs generalizing p bound with
  | nil => exact steady.weaken (by simp [fetchedSize])
  | cons f fs ih =>
    have later : ∀ g ∈ fs, FileSized E g := fun g within => sized g (List.mem_cons_of_mem f within)
    have size := (sized f List.mem_cons_self)
    have rest := fetchedSize_nonneg later
    obtain ⟨before, lasts⟩ := List.pairwise_cons.mp cachedLast
    rw [Progress.files]
    by_cases cached : f.tag.isSome = true
    · rw [fetchedSize_cached cached] at fits ⊢
      rw [Progress.file_cached cached]
      refine ih ⟨steady.sorted, steady.bounded, steady.totals⟩ later lasts low ?_ fits
      rintro ⟨g, within, missing, wanted⟩
      have unchanged : f.update.size = 0 := (before g within cached missing).resolve_right wanted
      rw [← here ⟨g, List.mem_cons_of_mem f within, missing, wanted⟩, unchanged]
      exact congrArg Int64.toInt (Int64.add_zero p.offset)
    · have missing : f.tag = none := Option.not_isSome_iff_eq_none.mp cached
      rw [fetchedSize_missing missing, ← Int.add_assoc] at fits ⊢
      rw [Progress.file_missing missing]
      by_cases empty : f.update.size = 0
      · have zero : f.update.size.toInt = 0 := toInt_eq_zero_iff.mpr empty
        rw [chunksOf_of_empty size missing empty, zero, Int.add_zero]
        refine ih ⟨steady.sorted, steady.bounded, steady.totals⟩ later lasts low ?_ (by omega)
        rintro ⟨g, within, wanted⟩
        rw [← here ⟨g, List.mem_cons_of_mem f within, wanted⟩, empty]
        exact congrArg Int64.toInt (Int64.add_zero p.offset)
      · have offset := here ⟨f, List.mem_cons_self, missing, empty⟩
        have body := size.body missing
        have nonneg := size.nonneg
        have zero : (0 : Int64).toInt = 0 := by decide
        have fitsBody : bound + (chunksOf E f).flatten.length < 2 ^ 63 := by omega
        have received := steady.receiveAll clock 0 (by omega) (by omega) (by omega) fitsBody
        have kept := Progress.receiveAll_fields clock (chunksOf E f) 0 p
        rw [body] at received
        refine ih ⟨received.sorted, received.bounded, received.totals⟩ later lasts (by omega) (fun _ => ?_) (by omega)
        show ((p.receiveAll clock (chunksOf E f) 0).offset + f.update.size).toInt = bound + f.update.size.toInt
        rw [kept.2.1, toInt_add_of_fits (by omega) (by omega), offset]

theorem Progress.files_transferred {fs : List FileUpdate} (sized : ∀ f ∈ fs, FileSized E f) (p : Progress) :
    ((p.files E clock fs).transferred : Int) = p.transferred + fetchedSize fs := by
  induction fs generalizing p with
  | nil => simp [Progress.files, fetchedSize]
  | cons f fs ih =>
    have later := fun p => ih (fun g within => sized g (List.mem_cons_of_mem f within)) p
    rw [Progress.files, later]
    by_cases cached : f.tag.isSome = true
    · rw [Progress.file_cached cached, fetchedSize_cached cached]
    · have missing : f.tag = none := Option.not_isSome_iff_eq_none.mp cached
      have received := (Progress.receiveAll_fields clock (chunksOf E f) 0 p).2.2
      have body := (sized f List.mem_cons_self).body missing
      rw [Progress.file_missing missing, fetchedSize_missing missing, received]
      omega

/-! ## The total -/

theorem tagUpdate_size (files : FileStore) (f : FileUpdate) : (tagUpdate E files f).update = f.update := by
  unfold tagUpdate
  split <;> rfl

theorem missingSize_tagUpdate (files : FileStore) (f : FileUpdate) :
    missingSize E files (tagUpdate E files f) = missingSize E files f := by
  unfold tagUpdate
  split <;> rfl

theorem fetchedSize_append (fs gs : List FileUpdate) : fetchedSize (fs ++ gs) = fetchedSize fs + fetchedSize gs := by
  induction fs with
  | nil => simp [fetchedSize]
  | cons f fs ih =>
    rw [List.cons_append, fetchedSize, ih, fetchedSize]
    omega

/-- What is left of a file that had no tag before. -/
theorem fetchedSize_tagUpdate {files : FileStore} {f : FileUpdate} (fresh : f.tag = none) :
    fetchedSize [tagUpdate E files f] = (missingSize E files f).toInt := by
  have zero : (0 : Int64).toInt = 0 := by decide
  unfold tagUpdate missingSize
  split <;> simp [fetchedSize, fresh, zero]

theorem fetchedSize_tagged_nonneg (files : FileStore) {ds : List DeltaInfo}
    (nonneg : ∀ d ∈ ds, 0 ≤ d.update.update.size.toInt) :
    0 ≤ fetchedSize (ds.map fun d => tagUpdate E files d.update) := by
  induction ds with
  | nil => exact Int.le_refl 0
  | cons d ds ih =>
    have here := nonneg d List.mem_cons_self
    have later := ih fun d' within => nonneg d' (List.mem_cons_of_mem d within)
    rw [List.map_cons, fetchedSize, tagUpdate_size]
    split <;> omega

/-- The sum of what is left. -/
theorem foldl_missingSize (files : FileStore) {ds : List DeltaInfo} (fresh : ∀ d ∈ ds, d.update.tag = none)
    (nonneg : ∀ d ∈ ds, 0 ≤ d.update.update.size.toInt) {size : Int64} (low : 0 ≤ size.toInt)
    (fits : size.toInt + fetchedSize (ds.map fun d => tagUpdate E files d.update) < 2 ^ 63) :
    (ds.foldl (fun size d => size + missingSize E files d.update) size).toInt =
      size.toInt + fetchedSize (ds.map fun d => tagUpdate E files d.update) := by
  induction ds generalizing size with
  | nil => simp [fetchedSize]
  | cons d ds ih =>
    have freshLater : ∀ d' ∈ ds, d'.update.tag = none := fun d' within => fresh d' (List.mem_cons_of_mem d within)
    have nonnegLater : ∀ d' ∈ ds, 0 ≤ d'.update.update.size.toInt := fun d' within => nonneg d' (List.mem_cons_of_mem d within)
    have split : fetchedSize ((d :: ds).map fun d => tagUpdate E files d.update) =
        (missingSize E files d.update).toInt + fetchedSize (ds.map fun d => tagUpdate E files d.update) := by
      rw [← fetchedSize_tagUpdate (fresh d List.mem_cons_self), ← fetchedSize_append]
      rfl
    have here : 0 ≤ (missingSize E files d.update).toInt := by
      unfold missingSize
      split
      · decide
      · exact nonneg d List.mem_cons_self
    have rest : 0 ≤ fetchedSize (ds.map fun d => tagUpdate E files d.update) := fetchedSize_tagged_nonneg files nonnegLater
    rw [split] at fits ⊢
    have sum : (size + missingSize E files d.update).toInt = size.toInt + (missingSize E files d.update).toInt :=
      toInt_add_of_fits (by omega) (by omega)
    rw [List.foldl_cons, ih freshLater nonnegLater (by omega) (by omega), sum]
    omega

theorem tagDeltas_updates (files : FileStore) (ds : List DeltaInfo) :
    (tagDeltas E files ds).map (·.update) = ds.map fun d => tagUpdate E files d.update := by
  induction ds with
  | nil => rfl
  | cons d ds ih =>
    cases ds with
    | nil => rfl
    | cons d' ds => exact congrArg (tagUpdate E files d.update :: ·) ih

theorem tagDeltas_last (files : FileStore) {ds : List DeltaInfo} {last : DeltaInfo} (ends : ds.getLast? = some last) :
    (tagDeltas E files ds).getLast? = some { last with
      update := tagUpdate E files last.update
      signature := if E.config.applySignature then tagUpdate E files last.signature else last.signature } := by
  induction ds with
  | nil => cases ends
  | cons d ds ih =>
    cases ds with
    | nil =>
      cases ends
      rfl
    | cons d' ds =>
      rw [List.getLast?_cons_cons] at ends
      have rest := ih ends
      obtain ⟨e, es, shape⟩ : ∃ e es, tagDeltas E files (d' :: ds) = e :: es := by
        cases ds <;> exact ⟨_, _, rfl⟩
      rw [tagDeltas, shape, List.getLast?_cons_cons, ← shape]
      exact rest

/-- Deltas as they are parsed, before any is tagged. -/
def AsParsed (ds : List DeltaInfo) : Prop := ∀ d ∈ ds, d.update.tag = none ∧ d.signature.tag = none

variable (E) in
/-- The files of a plan. -/
def Plan.files (plan : Plan) : List FileUpdate := deltaFiles E plan.deltas plan.last

/-- The total is the size of what is fetched. -/
theorem makePlan_deltaDownloadSize {files : FileStore} {first : DeltaInfo} {rest : List DeltaInfo} (fresh : AsParsed (first :: rest))
    (nonneg : ∀ f ∈ (makePlan E files first rest).files E, 0 ≤ f.update.size.toInt)
    (fits : fetchedSize ((makePlan E files first rest).files E) < 2 ^ 63) :
    (makePlan E files first rest).deltaDownloadSize.toInt = fetchedSize ((makePlan E files first rest).files E) := by
  obtain ⟨last, ends⟩ : ∃ last, (first :: rest).getLast? = some last := ⟨_, List.getLast?_eq_some_getLast (List.cons_ne_nil first rest)⟩
  have member : last ∈ first :: rest := List.mem_of_getLast? ends
  have tagged := tagDeltas_last (E := E) files ends
  have updateFiles : ∀ d ∈ first :: rest, d.update.tag = none := fun d within => (fresh d within).1
  have zero : (0 : Int64).toInt = 0 := by decide
  simp only [makePlan, Plan.files, deltaFiles, getDeltaDownloadSize, tagged, Option.getD_some, tagDeltas_updates,
    fetchedSize_append, List.mem_append, List.mem_map] at nonneg fits ⊢
  have updateSizes : ∀ d ∈ first :: rest, 0 ≤ d.update.update.size.toInt := by
    intro d within
    have size := nonneg (tagUpdate E files d.update) (.inl ⟨d, within, rfl⟩)
    rwa [tagUpdate_size] at size
  have sum := foldl_missingSize (E := E) files updateFiles updateSizes (Int.le_of_eq zero.symm)
  rw [zero, Int.zero_add] at sum
  cases signed : E.config.applySignature with
  | false =>
    simp only [signed, Bool.false_eq_true, if_false, fetchedSize, Int.add_zero] at fits ⊢
    exact sum fits
  | true =>
    have signature : fetchedSize [tagUpdate E files last.signature] = (missingSize E files last.signature).toInt :=
      fetchedSize_tagUpdate (fresh last member).2
    have signatureNonneg : 0 ≤ (missingSize E files last.signature).toInt := by
      unfold missingSize
      split
      · decide
      · have size := nonneg (tagUpdate E files last.signature) (.inr (by simp [signed]))
        rwa [tagUpdate_size] at size
    have updatesNonneg := fetchedSize_tagged_nonneg (E := E) files updateSizes
    simp only [signed, if_true, signature, missingSize_tagUpdate] at fits ⊢
    have updates := sum (by omega)
    rw [toInt_add_of_fits (by omega) (by omega), updates]

/-! ## A report that is too high -/

/-- A clock that passes 16 milliseconds at one of its readings. -/
def tick (m : Nat) : Nat → Int64 := fun n => if n < m then 0 else 16

/-- Nothing was reported since the start. -/
structure Progress.Idle (k : Nat) (p p' : Progress) : Prop where
  reports : p'.reports = p.reports
  lastTime : p'.lastTime = 0
  readings : p'.readings = p.readings + k

theorem Progress.write_early {m : Nat} {p : Progress} (idle : p.lastTime = 0) (early : p.readings < m) (chunk : Bytes)
    (recv : Int64) : p.Idle 1 (p.write (tick m) chunk recv) := by
  have quiet : ¬ (0 : Int64) + 16 ≤ 0 := by decide
  unfold Progress.write Progress.onProgress tick
  simp only [idle, if_pos early, if_neg quiet]
  exact ⟨rfl, rfl, rfl⟩

/-- The reading at which the clock passes. -/
theorem Progress.write_late {p : Progress} (idle : p.lastTime = 0) (chunk : Bytes) (recv : Int64) :
    ⟨recv + p.offset, p.total⟩ ∈ (p.write (tick p.readings) chunk recv).reports := by
  have due : (0 : Int64) + 16 ≤ 16 := by decide
  unfold Progress.write Progress.onProgress tick
  simp only [idle, Nat.lt_irrefl, if_false, if_pos due]
  exact List.mem_append_right _ List.mem_cons_self

theorem Progress.receiveAll_early {m : Nat} (chunks : List Bytes) {p : Progress} (idle : p.lastTime = 0)
    (early : p.readings + chunks.length ≤ m) (recv : Int64) :
    p.Idle chunks.length (p.receiveAll (tick m) chunks recv) := by
  induction chunks generalizing p recv with
  | nil => exact ⟨rfl, idle, rfl⟩
  | cons chunk rest ih =>
    rw [List.length_cons] at early ⊢
    have here := Progress.write_early (m := m) idle (by omega) chunk (recv + fileLength chunk)
    have later := ih here.lastTime (by rw [here.readings]; omega) (recv + fileLength chunk)
    refine ⟨later.reports.trans here.reports, later.lastTime, later.readings.trans ?_⟩
    rw [here.readings]
    omega

/-- The chunks of the files that are fetched. -/
def chunkCount (E : Env) : List FileUpdate → Nat
  | [] => 0
  | f :: fs => (if f.tag.isSome then 0 else (chunksOf E f).length) + chunkCount E fs

theorem Progress.files_early {m : Nat} {fs : List FileUpdate} {p : Progress} (idle : p.lastTime = 0)
    (early : p.readings + chunkCount E fs ≤ m) : p.Idle (chunkCount E fs) (p.files E (tick m) fs) := by
  induction fs generalizing p with
  | nil => exact ⟨rfl, idle, rfl⟩
  | cons f fs ih =>
    rw [chunkCount] at early ⊢
    rw [Progress.files]
    by_cases cached : f.tag.isSome = true
    · rw [if_pos cached, Nat.zero_add] at early ⊢
      rw [Progress.file_cached cached]
      have later := ih (p := { p with offset := p.offset + f.update.size }) idle early
      exact ⟨later.reports, later.lastTime, later.readings⟩
    · have missing : f.tag = none := Option.not_isSome_iff_eq_none.mp cached
      rw [if_neg cached] at early ⊢
      rw [Progress.file_missing missing]
      have here := Progress.receiveAll_early (m := m) (chunksOf E f) idle (by omega) 0
      have later := ih (p := { p.receiveAll (tick m) (chunksOf E f) 0 with
        offset := (p.receiveAll (tick m) (chunksOf E f) 0).offset + f.update.size }) here.lastTime
        (by rw [here.readings]; omega)
      refine ⟨later.reports.trans here.reports, later.lastTime, later.readings.trans ?_⟩
      show (p.receiveAll (tick m) (chunksOf E f) 0).readings + chunkCount E fs = _
      rw [here.readings]
      omega

theorem Progress.receiveAll_append (xs ys : List Bytes) (recv : Int64) (p : Progress) :
    p.receiveAll clock (xs ++ ys) recv =
      (p.receiveAll clock xs recv).receiveAll clock ys (xs.foldl (fun recv chunk => recv + fileLength chunk) recv) := by
  induction xs generalizing recv p with
  | nil => rfl
  | cons chunk xs ih => exact ih _ _

theorem foldl_fileLength (chunks : List Bytes) {recv : Int64} (low : 0 ≤ recv.toInt)
    (fits : recv.toInt + chunks.flatten.length < 2 ^ 63) :
    (chunks.foldl (fun recv chunk => recv + fileLength chunk) recv).toInt = recv.toInt + chunks.flatten.length := by
  induction chunks generalizing recv with
  | nil => simp
  | cons chunk rest ih =>
    rw [List.flatten_cons, List.length_append] at fits ⊢
    have length := fileLength_toInt chunk (by omega)
    have sum : (recv + fileLength chunk).toInt = recv.toInt + chunk.length := by
      rw [toInt_add_of_fits (by omega) (by omega), length]
    rw [List.foldl_cons, ih (by omega) (by omega), sum]
    omega

/-- Reports stay published. -/
theorem Progress.write_reports (chunk : Bytes) (recv : Int64) (p : Progress) : p.reports <+: (p.write clock chunk recv).reports := by
  unfold Progress.write Progress.onProgress
  dsimp only
  split
  · exact List.prefix_append _ _
  · exact List.prefix_refl _

theorem Progress.receiveAll_reports (chunks : List Bytes) (recv : Int64) (p : Progress) :
    p.reports <+: (p.receiveAll clock chunks recv).reports := by
  induction chunks generalizing recv p with
  | nil => exact List.prefix_refl _
  | cons chunk rest ih => exact (Progress.write_reports _ _ _).trans (ih _ _)

theorem Progress.files_reports (fs : List FileUpdate) (p : Progress) : p.reports <+: (p.files E clock fs).reports := by
  induction fs generalizing p with
  | nil => exact List.prefix_refl _
  | cons f fs ih =>
    have here : p.reports <+: (p.file E clock f).reports := by
      rw [Progress.file]
      split
      · exact List.prefix_refl _
      · exact Progress.receiveAll_reports _ _ _
    exact here.trans (ih { p.file E clock f with offset := (p.file E clock f).offset + f.update.size })

theorem wholeSize_nonneg {fs : List FileUpdate} (sized : ∀ f ∈ fs, FileSized E f) : 0 ≤ wholeSize fs := by
  induction fs with
  | nil => exact Int.le_refl 0
  | cons f fs ih =>
    have here := (sized f List.mem_cons_self).nonneg
    have later := ih fun g within => sized g (List.mem_cons_of_mem f within)
    rw [wholeSize]
    omega

/-- The last file that is fetched. -/
theorem Pending.last {fs : List FileUpdate} (pending : Pending fs) :
    ∃ before g after, fs = before ++ g :: after ∧ g.tag = none ∧ g.update.size ≠ 0 ∧ ¬ Pending after := by
  induction fs with
  | nil =>
    obtain ⟨g, within, -⟩ := pending
    cases within
  | cons f fs ih =>
    by_cases later : Pending fs
    · obtain ⟨before, g, after, shape, last⟩ := ih later
      exact ⟨f :: before, g, after, congrArg (f :: ·) shape, last⟩
    · obtain ⟨g, within, missing, needed⟩ := pending
      rcases List.mem_cons.mp within with rfl | within
      · exact ⟨[], g, fs, rfl, missing, needed, later⟩
      · exact absurd ⟨g, within, missing, needed⟩ later

theorem Progress.files_offset {fs : List FileUpdate} (sized : ∀ f ∈ fs, FileSized E f) {p : Progress} (low : 0 ≤ p.offset.toInt)
    (fits : p.offset.toInt + wholeSize fs < 2 ^ 63) :
    (p.files E clock fs).offset.toInt = p.offset.toInt + wholeSize fs := by
  induction fs generalizing p with
  | nil => simp [Progress.files, wholeSize]
  | cons f fs ih =>
    have later : ∀ g ∈ fs, FileSized E g := fun g within => sized g (List.mem_cons_of_mem f within)
    have here := (sized f List.mem_cons_self).nonneg
    have rest := wholeSize_nonneg later
    have same : (p.file E clock f).offset = p.offset := by
      unfold Progress.file
      split
      · rfl
      · exact (Progress.receiveAll_fields clock _ _ p).2.1
    rw [wholeSize] at fits ⊢
    have sum : ((p.file E clock f).offset + f.update.size).toInt = p.offset.toInt + f.update.size.toInt := by
      rw [same, toInt_add_of_fits (by omega) (by omega)]
    rw [Progress.files, ih later (by rw [sum]; omega) (by rw [sum]; omega), sum]
    omega

/-- The last chunk of a file, where the clock lets it be reported. -/
theorem Progress.receiveAll_last {chunks : List Bytes} (received : chunks ≠ []) {p : Progress} (idle : p.lastTime = 0)
    (low : 0 ≤ p.offset.toInt) (fits : p.offset.toInt + chunks.flatten.length < 2 ^ 63) :
    ∃ r ∈ (p.receiveAll (tick (p.readings + (chunks.length - 1))) chunks 0).reports,
      r.current.toInt = p.offset.toInt + chunks.flatten.length ∧ r.total = p.total := by
  obtain ⟨before, chunk, rfl⟩ : ∃ before chunk, chunks = before ++ [chunk] := ⟨_, _, (List.dropLast_append_getLast received).symm⟩
  have zero : (0 : Int64).toInt = 0 := by decide
  have index : p.readings + ((before ++ [chunk]).length - 1) = p.readings + before.length := by simp
  rw [index]
  simp only [List.flatten_append, List.flatten_singleton, List.length_append] at fits ⊢
  have early := Progress.receiveAll_early before idle (Nat.le_refl (p.readings + before.length)) 0
  have kept := Progress.receiveAll_fields (tick (p.readings + before.length)) before 0 p
  have recv := foldl_fileLength before (Int.le_of_eq zero.symm) (by omega)
  have length := fileLength_toInt chunk (by omega)
  have late := Progress.write_late (p := p.receiveAll (tick (p.readings + before.length)) before 0) early.lastTime chunk
    (before.foldl (fun recv chunk => recv + fileLength chunk) 0 + fileLength chunk)
  rw [early.readings] at late
  rw [Progress.receiveAll_append]
  refine ⟨_, late, ?_, ?_⟩
  · rw [kept.2.1]
    have sum : (before.foldl (fun recv chunk => recv + fileLength chunk) 0 + fileLength chunk).toInt =
        before.flatten.length + chunk.length := by
      rw [toInt_add_of_fits (by omega) (by omega), recv, length]
      omega
    rw [toInt_add_of_fits (by omega) (by omega), sum]
    omega
  · exact kept.1

/-- A file that is there before the last one that is fetched. -/
theorem not_cachedLast {fs : List FileUpdate} (wrong : ¬ CachedLast fs) :
    ∃ before g after, fs = before ++ g :: after ∧ g.tag = none ∧ g.update.size ≠ 0 ∧ ¬ Pending after ∧
      ∃ f ∈ before, f.tag.isSome = true ∧ f.update.size ≠ 0 := by
  induction fs with
  | nil => exact absurd List.Pairwise.nil wrong
  | cons f fs ih =>
    by_cases later : CachedLast fs
    · have here : ∃ g ∈ fs, f.tag.isSome = true ∧ g.tag = none ∧ f.update.size ≠ 0 ∧ g.update.size ≠ 0 := by
        by_contra fine
        refine wrong (List.pairwise_cons.mpr ⟨fun g within cached missing => ?_, later⟩)
        by_contra sizes
        rw [not_or] at sizes
        exact fine ⟨g, within, cached, missing, sizes⟩
      obtain ⟨g, within, cached, missing, wanted, needed⟩ := here
      obtain ⟨before, g', after, shape, last⟩ := Pending.last ⟨g, within, missing, needed⟩
      exact ⟨f :: before, g', after, congrArg (f :: ·) shape, last.1, last.2.1, last.2.2, f, List.mem_cons_self, cached, wanted⟩
    · obtain ⟨before, g, after, shape, missing, needed, done, f', within, cached⟩ := ih later
      exact ⟨f :: before, g, after, congrArg (f :: ·) shape, missing, needed, done, f', List.mem_cons_of_mem f within, cached⟩

theorem wholeSize_append (fs gs : List FileUpdate) : wholeSize (fs ++ gs) = wholeSize fs + wholeSize gs := by
  induction fs with
  | nil => simp [wholeSize]
  | cons f fs ih =>
    rw [List.cons_append, wholeSize, ih, wholeSize]
    omega

theorem fetchedSize_of_not_pending {fs : List FileUpdate} (done : ¬ Pending fs) : fetchedSize fs = 0 := by
  induction fs with
  | nil => rfl
  | cons f fs ih =>
    have later : ¬ Pending fs := fun ⟨g, within, wanted⟩ => done ⟨g, List.mem_cons_of_mem f within, wanted⟩
    by_cases cached : f.tag.isSome = true
    · rw [fetchedSize_cached cached, ih later]
    · have missing : f.tag = none := Option.not_isSome_iff_eq_none.mp cached
      have empty : f.update.size = 0 := by
        by_contra wanted
        exact done ⟨f, List.mem_cons_self, missing, wanted⟩
      rw [fetchedSize_missing missing, ih later, toInt_eq_zero_iff.mpr empty]
      rfl

theorem fetchedSize_le {fs : List FileUpdate} (sized : ∀ f ∈ fs, FileSized E f) : fetchedSize fs ≤ wholeSize fs := by
  induction fs with
  | nil => exact Int.le_refl 0
  | cons f fs ih =>
    have here := (sized f List.mem_cons_self).nonneg
    have later := ih fun g within => sized g (List.mem_cons_of_mem f within)
    rw [fetchedSize, wholeSize]
    split <;> omega

/-- A file that is there counts in the offset alone. -/
theorem fetchedSize_lt {fs : List FileUpdate} (sized : ∀ f ∈ fs, FileSized E f) {f : FileUpdate} (within : f ∈ fs)
    (cached : f.tag.isSome = true) (wanted : f.update.size ≠ 0) : fetchedSize fs < wholeSize fs := by
  induction fs with
  | nil => cases within
  | cons g fs ih =>
    have later : ∀ g ∈ fs, FileSized E g := fun g' within => sized g' (List.mem_cons_of_mem g within)
    have here := (sized g List.mem_cons_self).nonneg
    rw [wholeSize]
    rcases List.mem_cons.mp within with rfl | within
    · have rest := fetchedSize_le later
      have positive : f.update.size.toInt ≠ 0 := fun zero => wanted (toInt_eq_zero_iff.mp zero)
      rw [fetchedSize_cached cached]
      omega
    · have rest := ih later within
      rw [fetchedSize]
      split <;> omega

/-- **The accounts of a download are right**: the bytes are those announced, and
the reports rise to at most the total. -/
structure Accounted (size : Int64) (p : Progress) : Prop where
  bytes : (p.transferred : Int) = size.toInt
  within : ∀ r ∈ p.reports, r.current.toInt ≤ r.total.toInt
  ascending : p.reports.Pairwise fun r r' => r.current.toInt ≤ r'.current.toInt

/-- The progress of a plan's download. -/
def Plan.progress (E : Env) (C : Conditions) (clock : Nat → Int64) (args : Args) (plan : Plan) (w : World) : Progress :=
  downloadFilesProgress E C clock plan.deltas plan.last plan.deltaDownloadSize args.userInitiated w

section Accounts

variable {C : Conditions} {args : Args} {w : World} {files : FileStore} {first : DeltaInfo} {rest : List DeltaInfo}

/-- Files that are there come last: the reports are in order. -/
theorem accounted_of_cachedLast {fs : List FileUpdate} (sized : ∀ f ∈ fs, FileSized E f) (cachedLast : CachedLast fs)
    {total : Int64} (exact : total.toInt = fetchedSize fs) {p : Progress}
    (transferred : p.transferred = ((Progress.start total).files E clock fs).transferred)
    (reports : p.reports = ((Progress.start total).files E clock fs).reports ++ [⟨total, total⟩]) : Accounted total p := by
  have zero : (0 : Int64).toInt = 0 := by decide
  have start : Steady (Progress.start total) 0 :=
    ⟨List.pairwise_singleton _ _, fun r within => by rw [List.mem_singleton.mp within]; exact Int.le_of_eq zero,
      fun r within => by rw [List.mem_singleton.mp within]; rfl⟩
  have fits : 0 + fetchedSize fs < 2 ^ 63 := by
    have below := Int64.toInt_lt total
    omega
  have steady := start.files clock sized cachedLast (Int.le_refl 0) (fun _ => zero) fits
  have above : 0 + fetchedSize fs ≤ (⟨total, total⟩ : Report).current.toInt := by
    rw [Int.zero_add]
    exact Int.le_of_eq exact.symm
  have ended := steady.snoc above (Int.le_refl _) (Progress.files_total fs (Progress.start total)).symm
  refine ⟨?_, ?_, ?_⟩
  · rw [transferred, Progress.files_transferred sized, exact]
    exact Int.zero_add _
  · intro r within
    rw [reports] at within
    rw [ended.totals r within]
    show _ ≤ ((Progress.start total).files E clock fs).total.toInt
    rw [Progress.files_total]
    exact ended.bounded r within
  · rw [reports]
    exact ended.sorted

/-- A file that is there before the last one that is fetched: with a suitable clock
that one's last report is above the total. -/
theorem not_accounted {fs : List FileUpdate} (sized : ∀ f ∈ fs, FileSized E f) (fits : wholeSize fs < 2 ^ 63)
    (wrong : ¬ CachedLast fs) {total : Int64} (exact : total.toInt = fetchedSize fs) :
    ∃ clock, ∀ p : Progress, p.reports = ((Progress.start total).files E clock fs).reports ++ [⟨total, total⟩] →
      ¬ Accounted total p := by
  obtain ⟨before, g, after, rfl, missing, needed, done, f, within, cached, wanted⟩ := not_cachedLast wrong
  have sizedBefore : ∀ f ∈ before, FileSized E f := fun f within => sized f (List.mem_append_left _ within)
  have sizedHere : FileSized E g := sized g (List.mem_append_right _ List.mem_cons_self)
  have sizedAfter : ∀ f ∈ after, FileSized E f :=
    fun f within => sized f (List.mem_append_right _ (List.mem_cons_of_mem g within))
  have zero : (0 : Int64).toInt = 0 := by decide
  have body := sizedHere.body missing
  have wholeAfter := wholeSize_nonneg sizedAfter
  have wholeBefore := wholeSize_nonneg sizedBefore
  have more := fetchedSize_lt sizedBefore within cached wanted
  rw [wholeSize_append, wholeSize] at fits
  rw [fetchedSize_append, fetchedSize_missing missing, fetchedSize_of_not_pending done] at exact
  let m := chunkCount E before + ((chunksOf E g).length - 1)
  let p := (Progress.start total).files E (tick m) before
  have early : (Progress.start total).Idle (chunkCount E before) p :=
    Progress.files_early rfl (by rw [show (Progress.start total).readings = 0 from rfl]; omega)
  have readings : p.readings = chunkCount E before := early.readings.trans (Nat.zero_add _)
  have offset : p.offset.toInt = wholeSize before := by
    rw [Progress.files_offset sizedBefore (Int.le_of_eq zero.symm) (by rw [show (Progress.start total).offset = 0 from rfl]; omega)]
    exact Int.zero_add _
  have received : chunksOf E g ≠ [] := by
    intro none
    rw [none] at body
    exact needed (toInt_eq_zero_iff.mp body.symm)
  obtain ⟨r, reported, current, announced⟩ :=
    Progress.receiveAll_last received early.lastTime (by omega) (by omega)
  rw [readings] at reported
  refine ⟨tick m, fun p' reports accounted => ?_⟩
  have published : r ∈ p'.reports := by
    rw [reports]
    refine List.mem_append_left _ ?_
    rw [Progress.files_append, Progress.files, Progress.file_missing missing]
    exact (Progress.files_reports after _).subset reported
  have most := accounted.within r published
  have total_eq : r.total = total := announced.trans (Progress.files_total before (Progress.start total))
  rw [total_eq, current, offset, body] at most
  omega

/-- **The accounts are right for every clock exactly if no delta file that is there
stands before one that is fetched.** -/
theorem accounted_iff (fresh : AsParsed (first :: rest)) (succeeds : ((makePlan E files first rest).download E C args w).1 = true)
    (sized : ∀ f ∈ (makePlan E files first rest).files E, FileSized E f)
    (fits : wholeSize ((makePlan E files first rest).files E) < 2 ^ 63) :
    (∀ clock, Accounted (makePlan E files first rest).deltaDownloadSize
        ((makePlan E files first rest).progress E C clock args w)) ↔
      CachedLast ((makePlan E files first rest).files E) := by
  have below := fetchedSize_le sized
  have exact := makePlan_deltaDownloadSize fresh (fun f within => (sized f within).nonneg) (by omega)
  constructor
  · intro accounted
    by_contra wrong
    obtain ⟨clock, not⟩ := not_accounted sized fits wrong exact
    exact not _ (downloadFilesProgress_eq clock succeeds _).2 (accounted clock)
  · intro cachedLast clock
    have through := downloadFilesProgress_eq clock succeeds (makePlan E files first rest).deltaDownloadSize
    exact accounted_of_cachedLast sized cachedLast exact through.1 through.2

/-- The deltas from `omni-a` on, the second one with the byte 4. -/
def nextDelta : DeltaInfo :=
  { sampleDelta with
    update :=
      { name := "omni-b.update", tag := none, update := ⟨1, "ec7f7e7bb43742ce868145f71d37b53c"⟩, applied := ⟨1, ""⟩ } }

/-- A server with both. -/
def longServer : Published :=
  sampleServer [] [] [("u/omni-a.update", [2]), ("u/omni-b.update", [4])]

/-- The first delta is there. -/
def halfWorld : World := .idle [("/sd/OpenDelta/omni-a.update", [2])]

/-- The second delta is there. -/
def laterWorld : World := .idle [("/sd/OpenDelta/omni-b.update", [4])]

theorem accounted_later :
    ((makePlan longServer.env laterWorld.files sampleDelta [nextDelta]).download longServer.env .calm
      ⟨true, autoDownloadFull⟩ laterWorld).1 = true ∧
    ∀ clock, Accounted (makePlan longServer.env laterWorld.files sampleDelta [nextDelta]).deltaDownloadSize
      ((makePlan longServer.env laterWorld.files sampleDelta [nextDelta]).progress longServer.env .calm clock
        ⟨true, autoDownloadFull⟩ laterWorld) := by
  have listed : (makePlan longServer.env laterWorld.files sampleDelta [nextDelta]).files longServer.env =
      [sampleDelta.update, { nextDelta.update with tag := some "/sd/OpenDelta/omni-b.update" }] := by decide
  have succeeds : ((makePlan longServer.env laterWorld.files sampleDelta [nextDelta]).download longServer.env .calm
      ⟨true, autoDownloadFull⟩ laterWorld).1 = true := by decide
  refine ⟨succeeds, (accounted_iff ?_ succeeds ?_ ?_).mpr ?_⟩
  · unfold AsParsed
    decide
  · rw [listed]
    intro f within
    simp only [List.mem_cons, List.not_mem_nil, or_false] at within
    rcases within with rfl | rfl
    · exact ⟨by decide, fun _ => by decide⟩
    · exact ⟨by decide, nofun⟩
  · rw [listed]
    decide
  · rw [listed]
    unfold CachedLast
    decide

/-- The bytes of the delta that is there make the last report 2 of 1. -/
theorem accounted_half :
    ¬ ∀ clock, Accounted (makePlan longServer.env halfWorld.files sampleDelta [nextDelta]).deltaDownloadSize
      ((makePlan longServer.env halfWorld.files sampleDelta [nextDelta]).progress longServer.env .calm clock
        ⟨true, autoDownloadFull⟩ halfWorld) := by
  intro accounted
  have reported := (accounted (tick 0)).within ⟨2, 1⟩ (by decide)
  revert reported
  decide

end Accounts

end OpenDelta.Service
