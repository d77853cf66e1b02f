import OpenDelta.Native.Calls

/-!
# `zipadjust`, call by call

The function with every answer the outside may give. What is done between the
calls is that of the model without errors (`Zip.zipadjust`).
-/

namespace OpenDelta.Native
open ByteFile LittleEndian OpenDelta.Computation Zip

section

variable (P : Platform) (Z : Zlib)

/-- The search loop, from `i` downwards; the argument is `i + 1`. -/
def findFooter (fin : Bytes) : Nat → Program (Option CentralFooter)
  | 0 => return none
  | i + 1 => do
    let magic ← xseekread P fin i 4
    if word32 magic = magicCentralFooter then
      let footer := CentralFooter.decode (← xseekread P fin i sizeofCentralFooter)
      let header := CentralHeader.decode
        (← xseekread P fin footer.centralDirectoryOffset.toNat sizeofCentralHeader)
      if header.signature = magicCentralHeader then return some footer else findFooter fin i
    else findFooter fin i

/-- The data of one entry, inflated or copied. -/
def writeData (fin : Bytes) (decompress : Bool) (h : CentralHeader) (fout : Bytes) (outIndex : Nat) : Program Bytes :=
  if decompress ∧ h.compressionMethod = 8 then
    xdecompress P Z fin fout (dataPosition h) outIndex h.sizeCompressed.toNat
  else xfilecopy P fin fout (dataPosition h) outIndex h.sizeCompressed.toNat

/-- What a turn of the rewriting loop does with a header that is inside the
directory, and with its name. -/
def adjustHeader (fin : Bytes) (decompress : Bool) (st : AdjustState) (header : CentralHeader) (filename : Bytes) :
    Program (Turn AdjustState AdjustState) := do
  let nameLength := header.lengthFilename.toNat
  let localHeader := LocalHeader.decode (← xseekread P fin header.offset.toNat sizeofLocalHeader)
  let central := rewriteCentral decompress st.outIndex header
  let localHeader := rewriteLocal central localHeader
  let fout ← xseekwrite P st.fout st.outIndex.toNat localHeader.encode
  let outIndex := st.outIndex + UInt32.ofNat sizeofLocalHeader
  let fout ← xseekwrite P fout outIndex.toNat filename
  let outIndex := outIndex + header.lengthFilename.toUInt32
  let fout ← writeData P Z fin decompress header fout outIndex.toNat
  let outIndex := outIndex + localHeader.sizeCompressed
  let directoryIn := pwrite st.directoryIn st.inIndex central.encode
  if st.directoryOut.length < st.outDirIndex + sizeofCentralHeader + nameLength then undefined
  else
    let directoryOut := pwrite st.directoryOut st.outDirIndex
      (slice directoryIn st.inIndex (sizeofCentralHeader + nameLength))
    return .again {
      directoryIn
      inIndex := st.inIndex + sizeofCentralHeader + nameLength + header.lengthExtra.toNat +
        header.lengthComment.toNat
      directoryOut
      outDirIndex := st.outDirIndex + sizeofCentralHeader + nameLength
      fout
      outIndex }

/-- One turn of the rewriting loop. -/
def adjustEntry (fin : Bytes) (decompress : Bool) (st : AdjustState) : Program (Turn AdjustState AdjustState) :=
  if st.directoryIn.length < st.inIndex + 4 then undefined
  else if word32 (slice st.directoryIn st.inIndex 4) ≠ magicCentralHeader then return .done st
  else if st.directoryIn.length < st.inIndex + sizeofCentralHeader then undefined
  else
    let header := CentralHeader.decode (slice st.directoryIn st.inIndex sizeofCentralHeader)
    let nameLength := header.lengthFilename.toNat
    if 1024 ≤ nameLength then undefined
    else if st.directoryIn.length < st.inIndex + sizeofCentralHeader + nameLength then undefined
    else adjustHeader P Z fin decompress st header (slice st.directoryIn (st.inIndex + sizeofCentralHeader) nameLength)

/-- Directory and footer, written behind the last entry. -/
def finishArchive (footer : CentralFooter) (st : AdjustState) : Program Bytes := do
  let outSize := UInt32.ofNat st.outDirIndex
  let footer := { footer with
    centralDirectorySize := outSize
    centralDirectoryOffset := st.outIndex
    lengthComment := 0 }
  let fout ← xseekwrite P st.fout st.outIndex.toNat (st.directoryOut.take outSize.toNat)
  xseekwrite P fout (st.outIndex + outSize).toNat footer.encode

/-- The part of `zipadjust` behind the search. The two allocations are not
checked, and without their memory `read` and `memset` have nowhere to write. -/
def rewriteArchive (fin : Bytes) (decompress : Bool) (size : UInt32) (footer : CentralFooter) : Program Bytes := do
  let position := footer.centralDirectoryOffset
  let inSize := size - position
  let hasIn ← ask P .mallocUnchecked
  let hasOut ← ask P .mallocUnchecked
  let directoryIn ← xseekread P fin position.toNat inSize.toNat
  if !(hasIn && hasOut) then undefined
  else
    let _ ← call fun _ => ((), .unlink)
    must P (.opens .out)
    let st ← loop (adjustEntry P Z fin decompress)
      { directoryIn, inIndex := 0, directoryOut := List.replicate inSize.toNat 0, outDirIndex := 0, fout := [],
        outIndex := 0 }
    finishArchive P footer st

/-- `zipadjust`; a value is a return of 1 with the contents of the output file. -/
def zipadjust (fin : Bytes) (decompress : Bool) : Program Bytes := do
  must P (.opens .input)
  let moved ← ask P .seekEnd
  let size := if moved then UInt32.ofNat fin.length else 0xffffffff
  match ← findFooter P fin (searchLength size) with
  | none => giveUp
  | some footer =>
    if footer.centralDirectoryOffset = 0 then giveUp
    else rewriteArchive P Z fin decompress size footer

end

/-! ## Calls that make it give up -/

section Failing

variable (P : Platform) (Z : Zlib)

theorem ask_failsBy {record : Bool → SystemCall} (never : ∀ worked, ¬(record worked).aborts P) :
    FailsBy (SystemCall.aborts P) (ask P record) := .call fun _ => never _

theorem findFooter_failsBy (fin : Bytes) (count : Nat) : FailsBy (SystemCall.aborts P) (findFooter P fin count) := by
  induction count with
  | zero => exact .pure _
  | succ i ih =>
    rw [findFooter]
    refine .bind (xseekread_failsBy P _ _ _) fun magic => ?_
    split
    · refine .bind (xseekread_failsBy P _ _ _) fun footer => .bind (xseekread_failsBy P _ _ _) fun header => ?_
      dsimp only
      split
      · exact .pure _
      · exact ih
    · exact ih

theorem writeData_failsBy (fin : Bytes) (decompress : Bool) (h : CentralHeader) (fout : Bytes) (outIndex : Nat) :
    FailsBy (SystemCall.aborts P) (writeData P Z fin decompress h fout outIndex) := by
  unfold writeData
  split
  · exact xdecompress_failsBy P Z _ _ _ _ _
  · exact xfilecopy_failsBy P _ _ _ _ _

theorem adjustHeader_failsBy (fin : Bytes) (decompress : Bool) (st : AdjustState) (header : CentralHeader)
    (filename : Bytes) : FailsBy (SystemCall.aborts P) (adjustHeader P Z fin decompress st header filename) := by
  refine .bind (xseekread_failsBy P _ _ _) fun _ => .bind (xseekwrite_failsBy P _ _ _) fun _ =>
    .bind (xseekwrite_failsBy P _ _ _) fun _ => .bind (writeData_failsBy P Z _ _ _ _ _) fun _ => ?_
  split
  · exact .undefined
  · exact .pure _

theorem adjustEntry_failsBy (fin : Bytes) (decompress : Bool) (st : AdjustState) :
    FailsBy (SystemCall.aborts P) (adjustEntry P Z fin decompress st) := by
  unfold adjustEntry
  split
  · exact .undefined
  · split
    · exact .pure _
    · split
      · exact .undefined
      · dsimp only
        split
        · exact .undefined
        · split
          · exact .undefined
          · exact adjustHeader_failsBy P Z _ _ _ _ _

theorem rewriteArchive_failsBy (fin : Bytes) (decompress : Bool) (size : UInt32) (footer : CentralFooter) :
    FailsBy (SystemCall.aborts P) (rewriteArchive P Z fin decompress size footer) := by
  refine .bind (ask_failsBy P fun _ => id) fun hasIn => .bind (ask_failsBy P fun _ => id) fun hasOut =>
    .bind (xseekread_failsBy P _ _ _) fun directoryIn => ?_
  split
  · exact .undefined
  · refine .bind (.call fun _ => id) fun _ => .bind (must_failsBy P fun _ => Iff.rfl) fun _ =>
      .bind (.loop (adjustEntry_failsBy P Z fin decompress) _) fun st => ?_
    exact .bind (xseekwrite_failsBy P _ _ _) fun _ => xseekwrite_failsBy P _ _ _

/-- A failing `read` of a few bytes makes `xseekread` give up. -/
theorem xseekread_guarded (fd : Bytes) (offset : Nat) {bytes : Nat} (few : bytes < 2 ^ 32 - 1) :
    Makes (fun c => c.readFails → c.aborts P) (xseekread P fd offset bytes) := by
  refine .bind (.attempt fun _ => False.elim) fun _ => .attempt fun n fails => ?_
  show P.asSize ((P.delivered fd offset bytes n).map List.length) ≠ bytes
  change (SystemCall.read .seekread bytes ((P.delivered fd offset bytes n).map List.length)).readFails at fails
  generalize (P.delivered fd offset bytes n).map List.length = result at fails
  cases result with
  | none =>
    have large := P.sizeMax_large
    show P.sizeMax ≠ bytes
    omega
  | some count => exact False.elim fails

theorem findFooter_guarded (fin : Bytes) (count : Nat) :
    Makes (fun c => c.readFails → c.aborts P) (findFooter P fin count) := by
  induction count with
  | zero => exact .pure _
  | succ i ih =>
    rw [findFooter]
    refine .bind (xseekread_guarded P fin i (by decide)) fun magic => ?_
    split
    · refine .bind (xseekread_guarded P fin i (by decide)) fun footer =>
        .bind (xseekread_guarded P fin _ (by decide)) fun header => ?_
      dsimp only
      split
      · exact .pure _
      · exact ih
    · exact ih

theorem zipadjust_careful (fin : Bytes) (decompress : Bool) :
    Careful SystemCall.readFails (SystemCall.aborts P) (zipadjust P Z fin decompress) := by
  refine .bind (must_failsBy P fun _ => Iff.rfl) (.attempt fun _ => False.elim) fun _ =>
    .bind (ask_failsBy P fun _ => id) (.attempt fun _ => False.elim) fun moved =>
    .bind (findFooter_failsBy P _ _) (findFooter_guarded P _ _) fun found => ?_
  cases found with
  | none => exact .giveUp
  | some footer =>
    show Careful _ _ (if _ then _ else _)
    split
    · exact .giveUp
    · exact (rewriteArchive_failsBy P Z _ _ _ _).careful

end Failing

/-! ## Coming to an end -/

section Ending

variable {P : Platform} {Z : Zlib}

theorem findFooter_live (fin : Bytes) (count : Nat) : Live SystemCall.readFails (findFooter P fin count) := by
  induction count with
  | zero => exact .pure _
  | succ i ih =>
    rw [findFooter]
    refine .bind (xseekread_live _ _ _) fun magic => ?_
    split
    · refine .bind (xseekread_live _ _ _) fun footer => .bind (xseekread_live _ _ _) fun header => ?_
      dsimp only
      split
      · exact .pure _
      · exact ih
    · exact ih

theorem writeData_live (fin : Bytes) (decompress : Bool) (h : CentralHeader) (fout : Bytes) (outIndex : Nat) :
    Live SystemCall.readFails (writeData P Z fin decompress h fout outIndex) := by
  unfold writeData
  split
  · exact xdecompress_live _ _ _ _ _
  · have size := h.sizeCompressed.toNat_lt
    have large := P.sizeMax_large
    exact xfilecopy_live _ _ _ _ (by omega)

theorem adjustHeader_live (fin : Bytes) (decompress : Bool) (st : AdjustState) (header : CentralHeader)
    (filename : Bytes) : Live SystemCall.readFails (adjustHeader P Z fin decompress st header filename) := by
  refine .bind (xseekread_live _ _ _) fun _ => .bind (xseekwrite_live _ _ _) fun _ => .bind (xseekwrite_live _ _ _) fun _ =>
    .bind (writeData_live _ _ _ _ _) fun _ => ?_
  split
  · exact .undefined
  · exact .pure _

/-- What a turn makes of the index and the size of the input directory. -/
theorem adjustHeader_again {fin : Bytes} {decompress : Bool} {st st' : AdjustState} {header : CentralHeader}
    {filename : Bytes} {n : Nat} {calls : List SystemCall}
    (returns : Computation.Returns (adjustHeader P Z fin decompress st header filename) n (.again st') calls)
    (inside : st.inIndex + sizeofCentralHeader ≤ st.directoryIn.length) :
    st'.directoryIn.length = st.directoryIn.length ∧ st.inIndex + sizeofCentralHeader ≤ st'.inIndex := by
  obtain ⟨_, _, _, _, second, -⟩ := returns_bind.mp returns
  obtain ⟨_, _, _, _, third, -⟩ := returns_bind.mp second
  obtain ⟨_, _, _, _, fourth, -⟩ := returns_bind.mp third
  obtain ⟨_, _, _, _, last, -⟩ := returns_bind.mp fourth
  split at last
  · exact absurd last not_returns_undefined
  · obtain ⟨same, -⟩ := returns_pure.mp last
    cases same
    refine ⟨?_, ?_⟩
    · show (pwrite st.directoryIn st.inIndex (rewriteCentral decompress st.outIndex header).encode).length = _
      apply pwrite_length
      rw [CentralHeader.encode_length]
      exact inside
    · show _ ≤ st.inIndex + sizeofCentralHeader + _ + _ + _
      omega

theorem adjustEntry_less {fin : Bytes} {decompress : Bool} {st st' : AdjustState} {n : Nat} {calls : List SystemCall}
    (returns : Computation.Returns (adjustEntry P Z fin decompress st) n (.again st') calls) :
    st'.directoryIn.length - st'.inIndex < st.directoryIn.length - st.inIndex := by
  unfold adjustEntry at returns
  split at returns
  · exact absurd returns not_returns_undefined
  · split at returns
    · exact nomatch (returns_pure.mp returns).1
    · split at returns
      · exact absurd returns not_returns_undefined
      · rename_i outside
        dsimp only at returns
        split at returns
        · exact absurd returns not_returns_undefined
        · split at returns
          · exact absurd returns not_returns_undefined
          · obtain ⟨length, further⟩ := adjustHeader_again returns (Nat.le_of_not_lt outside)
            rw [sizeofCentralHeader] at further outside
            omega

theorem adjustEntry_live (fin : Bytes) (decompress : Bool) (st : AdjustState) :
    Live SystemCall.readFails (adjustEntry P Z fin decompress st) := by
  unfold adjustEntry
  split
  · exact .undefined
  · split
    · exact .pure _
    · split
      · exact .undefined
      · dsimp only
        split
        · exact .undefined
        · split
          · exact .undefined
          · exact adjustHeader_live _ _ _ _ _

theorem rewriteArchive_live (fin : Bytes) (decompress : Bool) (size : UInt32) (footer : CentralFooter) :
    Live SystemCall.readFails (rewriteArchive P Z fin decompress size footer) := by
  refine .bind (.attempt _) fun hasIn => .bind (.attempt _) fun hasOut => .bind (xseekread_live _ _ _) fun _ => ?_
  split
  · exact .undefined
  · refine .bind (.attempt _) fun _ => .bind (must_live _) fun _ => .bind ?_ fun st => ?_
    · exact live_loop_measure (fun st => st.directoryIn.length - st.inIndex) (fun _ => True)
        (fun st _ => adjustEntry_live fin decompress st)
        (fun _ _ _ _ _ returns _ => ⟨trivial, adjustEntry_less returns⟩) trivial
    · exact .bind (xseekwrite_live _ _ _) fun _ => xseekwrite_live _ _ _

theorem zipadjust_live (fin : Bytes) (decompress : Bool) :
    Live SystemCall.readFails (zipadjust P Z fin decompress) := by
  refine .bind (must_live _) fun _ => .bind (.attempt _) fun moved => .bind (findFooter_live _ _) fun found => ?_
  cases found with
  | none => exact .giveUp
  | some footer =>
    show Live _ (if _ then _ else _)
    split
    · exact .giveUp
    · exact rewriteArchive_live _ _ _ _

end Ending

end OpenDelta.Native
