import OpenDelta.Zip.Adjust

/-!
# What one entry's data step writes

Both data steps of `zipadjust` only move forward in the output, so each is one
positioned write of a byte string that does not depend on the output:
`xfilecopy_eq` for the copy, `xdecompress_at` for the inflater, and
`writeData_at` for the choice between them.
-/

namespace OpenDelta.Zip
open ByteFile

/-- Appending at the end of what was written since `off`. -/
theorem pwrite_continue (f w x : Bytes) (off : Nat) :
    pwrite (pwrite f off w) (off + w.length) x = pwrite f off (pwrite w w.length x) := by
  rw [pwrite_pwrite, pwrite_append rfl]

theorem xfilecopyLoop_eq (fdIn : Bytes) :
    ∀ fuel left posIn posOut fdOut, left ≤ fuel →
      xfilecopyLoop fdIn fuel left posIn posOut fdOut =
        if left = 0 ∨ posIn + left ≤ fdIn.length then .ok (pwrite fdOut posOut (slice fdIn posIn left))
        else .error .failed := by
  intro fuel
  induction fuel with
  | zero =>
    intro left posIn posOut fdOut bound
    obtain rfl : left = 0 := by omega
    simp [xfilecopyLoop]
  | succ fuel ih =>
    intro left posIn posOut fdOut bound
    by_cases done : left = 0
    · simp [xfilecopyLoop, done]
    · have positive : 0 < chunk := by decide
      generalize wantedEq : (if left < chunk then left else chunk) = wanted
      have wanted_pos : 0 < wanted := by split at wantedEq <;> omega
      have wanted_le : wanted ≤ left := by split at wantedEq <;> omega
      rw [xfilecopyLoop, if_neg done]
      simp only [wantedEq, slice_length]
      by_cases eof : min wanted (fdIn.length - posIn) = 0
      · rw [if_pos eof, if_neg (by omega)]
      · rw [if_neg eof, ih _ _ _ _ (by omega)]
        by_cases inside : posIn + left ≤ fdIn.length
        · have full : min wanted (fdIn.length - posIn) = wanted := by omega
          have len : (slice fdIn posIn wanted).length = wanted := by rw [slice_length, full]
          rw [if_pos (by omega), if_pos (by omega), full]
          have glue := pwrite_pwrite fdOut posOut (slice fdIn posIn wanted)
            (slice fdIn (posIn + wanted) (left - wanted))
          rw [len, slice_add, Nat.add_sub_cancel' wanted_le] at glue
          rw [glue]
        · rw [if_neg (by omega), if_neg (by omega)]

/-- `xfilecopy` copies the window or, when the input ends inside it, fails. -/
theorem xfilecopy_eq (fdIn fdOut : Bytes) (offsetIn offsetOut bytes : Nat) :
    xfilecopy fdIn fdOut offsetIn offsetOut bytes =
      if bytes = 0 ∨ offsetIn + bytes ≤ fdIn.length then
        .ok (pwrite fdOut offsetOut (slice fdIn offsetIn bytes))
      else .error .failed :=
  xfilecopyLoop_eq fdIn bytes bytes offsetIn offsetOut fdOut (Nat.le_refl _)

variable (Z : Zlib)

/-- Moving the inner loop to another output: same course, the bytes written
behind `off`. -/
theorem inflateLoop_at (fdOut : Bytes) (off : Nat) :
    ∀ fuel strm buf w,
      inflateLoop Z fuel strm buf (pwrite fdOut off w) (off + w.length) =
        (inflateLoop Z fuel strm buf w w.length).map
          fun (ret, strm, w, _) => (ret, strm, pwrite fdOut off w, off + w.length) := by
  intro fuel
  induction fuel with
  | zero => intro strm buf w; rfl
  | succ fuel ih =>
    intro strm buf w
    have next : ∀ x : Bytes, (pwrite w w.length x).length = w.length + x.length := by
      intro x
      rw [pwrite_append rfl, List.length_append]
    simp only [inflateLoop]
    generalize Z.inflate strm buf chunk = step
    cases step.ret <;> simp only [Except.map]
    all_goals
      rw [pwrite_continue, Nat.add_assoc, ← next]
      split
      · rw [ih]
        rfl
      · rfl

/-- What the inner loop writes lies at the end of the output, which it reports
as the new position. -/
theorem inflateLoop_end :
    ∀ fuel strm buf w ret strm' w' pos, inflateLoop Z fuel strm buf w w.length = .ok (ret, strm', w', pos) →
      pos = w'.length := by
  intro fuel
  induction fuel with
  | zero => intro strm buf w ret strm' w' pos run; cases run
  | succ fuel ih =>
    intro strm buf w ret strm' w' pos run
    have next : (pwrite w w.length (Z.inflate strm buf chunk).out).length =
        w.length + (Z.inflate strm buf chunk).out.length := by
      rw [pwrite_append rfl, List.length_append]
    simp only [inflateLoop] at run
    rw [← next] at run
    split at run
    · cases run
    · cases run
    · cases run
    · cases run
    · split at run
      · exact ih _ _ _ _ _ _ _ run
      · cases run
        rfl

theorem xdecompressLoop_at (fdIn fdOut : Bytes) (off : Nat) :
    ∀ fuel ret strm posIn w,
      xdecompressLoop Z fdIn fuel ret strm posIn (pwrite fdOut off w) (off + w.length) =
        (xdecompressLoop Z fdIn fuel ret strm posIn w w.length).map (pwrite fdOut off) := by
  intro fuel
  induction fuel with
  | zero =>
    intro ret strm posIn w
    simp only [xdecompressLoop]
    split <;> rfl
  | succ fuel ih =>
    intro ret strm posIn w
    simp only [xdecompressLoop, inflateLoop_at]
    split
    · split <;> rfl
    · cases run : inflateLoop Z (Z.pending strm (slice fdIn posIn chunk) + 1) strm
          (slice fdIn posIn chunk) w w.length with
      | error fault => rfl
      | ok result =>
        obtain ⟨ret', strm', w', pos⟩ := result
        obtain rfl := inflateLoop_end Z _ _ _ _ _ _ _ _ run
        simp only [Except.map]
        split
        · rfl
        · rw [ih]
          rfl

/-- `xdecompress` writes, at `offsetOut`, what it writes to an empty file. -/
theorem xdecompress_at (fdIn fdOut : Bytes) (offsetIn offsetOut n : Nat) :
    xdecompress Z fdIn fdOut offsetIn offsetOut n =
      (xdecompress Z fdIn [] offsetIn 0 n).map (pwrite fdOut offsetOut) := by
  unfold xdecompress
  cases Z.inflateInit2 with
  | none => rfl
  | some strm => simpa using xdecompressLoop_at Z fdIn fdOut offsetOut (fdIn.length + 1) .ok strm offsetIn []

/-- The bytes one entry's data step writes. -/
def entryData (fin : Bytes) (decompress : Bool) (h : CentralHeader) : Call Bytes :=
  writeData Z fin decompress h [] 0

/-- The data step is one positioned write of those bytes. -/
theorem writeData_at (fin fout : Bytes) (decompress : Bool) (h : CentralHeader) (outIndex : Nat) :
    writeData Z fin decompress h fout outIndex =
      (entryData Z fin decompress h).map (pwrite fout outIndex) := by
  unfold entryData writeData
  split
  · exact xdecompress_at Z ..
  · rw [xfilecopy_eq, xfilecopy_eq]
    split
    · simp [Except.map, pwrite_append]
    · rfl

/-- A copied entry is its window of the input. -/
theorem entryData_copy {fin : Bytes} {decompress : Bool} {h : CentralHeader}
    (copied : ¬ (decompress ∧ h.compressionMethod = 8)) :
    entryData Z fin decompress h =
      if h.sizeCompressed.toNat = 0 ∨ dataPosition h + h.sizeCompressed.toNat ≤ fin.length then
        .ok (slice fin (dataPosition h) h.sizeCompressed.toNat)
      else .error .failed := by
  rw [entryData, writeData, if_neg copied, xfilecopy_eq]
  simp [pwrite_append]

/-- A copied entry has the size its header declares. -/
theorem entryData_copy_length {fin w : Bytes} {decompress : Bool} {h : CentralHeader}
    (copied : ¬ (decompress ∧ h.compressionMethod = 8))
    (data : entryData Z fin decompress h = .ok w) : w.length = h.sizeCompressed.toNat := by
  rw [entryData_copy Z copied] at data
  split at data
  · cases data
    rw [slice_length]
    omega
  · cases data

end OpenDelta.Zip
