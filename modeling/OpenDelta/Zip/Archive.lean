import OpenDelta.Zip.Layout

/-!
# `zipadjust` as a whole

`findFooter_last` and `findFooter_some` say which record the backward search
finds, `zipadjust_of_directory` what the rest of the function makes of it, and
`zipadjust_inv` what a return of 1 tells about the input and the output.
-/

namespace OpenDelta.Zip
open ByteFile LittleEndian

/-! ## The search -/

/-- The EOCD signature stands at `i`. -/
def FooterAt (f : Bytes) (i : Nat) : Prop := slice f i 4 = bytes32 magicCentralFooter

instance (f : Bytes) (i : Nat) : Decidable (FooterAt f i) :=
  inferInstanceAs (Decidable (slice f i 4 = bytes32 magicCentralFooter))

theorem xseekread_ok {fd : Bytes} {offset bytes : Nat} (inside : offset + bytes ≤ fd.length) :
    xseekread fd offset bytes = .ok (slice fd offset bytes) := by
  rw [xseekread, if_pos]
  rw [slice_length]
  omega

theorem xseekread_short {fd : Bytes} {offset bytes : Nat} (some : 0 < bytes) (short : ¬ offset + bytes ≤ fd.length) :
    xseekread fd offset bytes = .error .failed := by
  rw [xseekread, if_neg]
  rw [slice_length]
  omega

theorem xseekread_inv {fd r : Bytes} {offset bytes : Nat} (run : xseekread fd offset bytes = .ok r) :
    r = slice fd offset bytes ∧ r.length = bytes := by
  rw [xseekread] at run
  split at run
  · cases run
    exact ⟨rfl, ‹_›⟩
  · cases run

theorem word32_eq_iff {bs : Bytes} (len : bs.length = 4) (x : UInt32) :
    word32 bs = x ↔ bs = bytes32 x := by
  constructor
  · rintro rfl
    exact (bytes32_word32 len).symm
  · rintro rfl
    exact word32_bytes32 x

/-- The first field of a footer is its first four bytes. -/
theorem footer_signature (bs : Bytes) :
    (CentralFooter.decode bs).signature = word32 (bs.take 4) := rfl

theorem header_signature (bs : Bytes) :
    (CentralHeader.decode bs).signature = word32 (bs.take 4) := rfl

/-- The search skips positions without the signature. -/
theorem findFooter_skip {fin : Bytes} {i n : Nat} (le : i ≤ n) (readable : n + 3 ≤ fin.length)
    (skipped : ∀ j, i ≤ j → j < n → ¬ FooterAt fin j) : findFooter fin n = findFooter fin i := by
  induction le with
  | refl => rfl
  | @step n le ih =>
    have here : word32 (slice fin n 4) ≠ magicCentralFooter := by
      rw [Ne, word32_eq_iff (by rw [slice_length]; omega)]
      exact skipped n le (Nat.lt_succ_self n)
    rw [findFooter, xseekread_ok (by omega)]
    simp only [bind, Except.bind]
    rw [if_neg here]
    exact ih (by omega) fun j low high => skipped j low (Nat.lt_succ_of_lt high)

/-- The search ends at the last signature of the file, when it belongs to a
footer whose offset leads to a central header. -/
theorem findFooter_last {fin : Bytes} {i n : Nat} {footer : CentralFooter} (lt : i < n)
    (readable : n + 3 ≤ fin.length) (last : ∀ j, i < j → j < n → ¬ FooterAt fin j)
    (footerAt : slice fin i 22 = footer.encode) (signature : footer.signature = magicCentralFooter)
    (directory : footer.centralDirectoryOffset.toNat + 46 ≤ fin.length)
    (header : word32 (slice fin footer.centralDirectoryOffset.toNat 4) = magicCentralHeader) :
    findFooter fin n = .ok (some footer) := by
  have footerLen := congrArg List.length footerAt
  rw [slice_length, CentralFooter.encode_length] at footerLen
  have here : word32 (slice fin i 4) = magicCentralFooter := by
    have front : slice fin i 4 = (slice fin i 22).take 4 := by simp [slice, List.take_take]
    rw [front, footerAt, CentralFooter.encode, List.take_left' (bytes32_length _), word32_bytes32, signature]
  have entry : (CentralHeader.decode (slice fin footer.centralDirectoryOffset.toNat 46)).signature =
      magicCentralHeader := by
    rw [header_signature, ← header]
    simp [slice, List.take_take]
  rw [findFooter_skip lt readable (fun j low high => last j low high), findFooter, xseekread_ok (by omega)]
  simp only [bind, Except.bind]
  rw [if_pos here, sizeofCentralFooter, xseekread_ok (by omega)]
  simp only [footerAt, CentralFooter.decode_encode]
  rw [sizeofCentralHeader, xseekread_ok directory]
  simp only
  rw [if_pos entry]

/-- What the search found. -/
theorem findFooter_some {fin : Bytes} {footer : CentralFooter} :
    ∀ {n : Nat}, findFooter fin n = .ok (some footer) →
      footer.signature = magicCentralFooter ∧
        footer.centralDirectoryOffset.toNat + 46 ≤ fin.length ∧
        word32 (slice fin footer.centralDirectoryOffset.toNat 4) = magicCentralHeader := by
  intro n
  induction n with
  | zero => intro run; cases run
  | succ i ih =>
    intro run
    rw [findFooter] at run
    cases magicRead : xseekread fin i 4 with
    | error fault =>
      rw [magicRead] at run
      cases run
    | ok magic =>
      rw [magicRead] at run
      simp only [bind, Except.bind] at run
      by_cases here : word32 magic = magicCentralFooter
      swap
      · rw [if_neg here] at run
        exact ih run
      rw [if_pos here] at run
      cases footerRead : xseekread fin i sizeofCentralFooter with
      | error fault =>
        rw [footerRead] at run
        cases run
      | ok footerBytes =>
        rw [footerRead] at run
        simp only at run
        cases headerRead : xseekread fin (CentralFooter.decode footerBytes).centralDirectoryOffset.toNat
            sizeofCentralHeader with
        | error fault =>
          rw [headerRead] at run
          cases run
        | ok headerBytes =>
          rw [headerRead] at run
          simp only at run
          by_cases entry : (CentralHeader.decode headerBytes).signature = magicCentralHeader
          swap
          · rw [if_neg entry] at run
            exact ih run
          rw [if_pos entry] at run
          cases run
          obtain ⟨rfl, -⟩ := xseekread_inv magicRead
          obtain ⟨rfl, -⟩ := xseekread_inv footerRead
          obtain ⟨rfl, headerLen⟩ := xseekread_inv headerRead
          rw [slice_length, sizeofCentralHeader] at headerLen
          refine ⟨?_, by omega, ?_⟩
          · rw [footer_signature, ← here]
            simp [slice, List.take_take, sizeofCentralFooter]
          · rw [← entry, header_signature]
            simp [slice, List.take_take, sizeofCentralHeader]

theorem UInt32.toInt32_toInt (x : UInt32) :
    x.toInt32.toInt = if 2 * x.toNat < 2 ^ 32 then (x.toNat : Int) else (x.toNat : Int) - 2 ^ 32 := by
  show x.toBitVec.toInt = _
  rw [BitVec.toInt_eq_toNat_cond]
  rfl

theorem size_sub_four {n : Nat} (long : 4 ≤ n) (below : n < 2 ^ 32) :
    (UInt32.ofNat n - 4).toNat = n - 4 := by
  have toNat : (UInt32.ofNat n).toNat = n := UInt32.toNat_ofNat_of_lt' (by simpa using below)
  rw [UInt32.toNat_sub_of_le _ _ (by rw [UInt32.le_iff_toNat_le, toNat]; exact long), toNat]
  rfl

/-- Files the search can cover: `size - 4` is a non-negative `int`. -/
theorem searchLength_eq {n : Nat} (long : 4 ≤ n) (small : n < 2 ^ 31 + 4) :
    searchLength (UInt32.ofNat n) = n - 3 := by
  simp only [searchLength, UInt32.toInt32_toInt, size_sub_four long (by omega : n < 2 ^ 32)]
  rw [if_pos (by omega : 2 * (n - 4) < 2 ^ 32), if_neg (by omega)]
  omega

/-- Beyond 2 GiB the search visits nothing. -/
theorem searchLength_large {n : Nat} (large : 2 ^ 31 + 4 ≤ n) (below : n < 2 ^ 32) :
    searchLength (UInt32.ofNat n) = 0 := by
  simp only [searchLength, UInt32.toInt32_toInt, size_sub_four (by omega : 4 ≤ n) below]
  rw [if_neg (by omega : ¬ 2 * (n - 4) < 2 ^ 32), if_pos (by omega)]

/-! ## The whole function -/

variable (Z : Zlib)

/-- The part of the input read as the central directory: from the offset to the
end of the file. -/
def directoryOf (fin : Bytes) (footer : CentralFooter) : Bytes :=
  slice fin footer.centralDirectoryOffset.toNat
    (UInt32.ofNat fin.length - footer.centralDirectoryOffset).toNat

/-- The footer of an output with these records. -/
def closeFooter (footer : CentralFooter) (records : List Record) : CentralFooter :=
  { footer with
    centralDirectorySize := UInt32.ofNat (centralRegion records).length
    centralDirectoryOffset := UInt32.ofNat (localRegion records).length
    lengthComment := 0 }

/-- The variables before the rewriting loop. -/
def startState (directoryIn : Bytes) (room : Nat) : AdjustState :=
  { directoryIn, inIndex := 0, directoryOut := List.replicate room 0, outDirIndex := 0, fout := [], outIndex := 0 }

theorem startState_aligned {directoryIn : Bytes} {room : Nat} (len : directoryIn.length = room) :
    (startState directoryIn room).Aligned :=
  ⟨rfl, by simp [startState, len], Nat.le_refl _⟩

/-- After the loop the directory and the footer follow the records. -/
theorem finishArchive_eq {footer : CentralFooter} {st st' : AdjustState} {records : List Record}
    (start : st.fout = []) (startDir : st.outDirIndex = 0) (appended : Appended st st' records)
    (fits : (localRegion records).length + (centralRegion records).length < 2 ^ 32) :
    finishArchive footer st' = layout records (closeFooter footer records) := by
  have fout : st'.fout = localRegion records := by rw [appended.fout, start, List.nil_append]
  have outDir : st'.outDirIndex = (centralRegion records).length := by
    rw [appended.outDirIndex, startDir, Nat.zero_add]
  have directory : st'.directoryOut.take (centralRegion records).length = centralRegion records := by
    rw [← outDir, appended.directory, startDir, List.take_zero, List.nil_append]
  have position : st'.outIndex.toNat = (localRegion records).length := by rw [appended.position, fout]
  have size : (UInt32.ofNat (centralRegion records).length).toNat = (centralRegion records).length :=
    UInt32.toNat_ofNat_of_lt' (by simp only [UInt32.size]; omega)
  have offset : st'.outIndex = UInt32.ofNat (localRegion records).length := by
    rw [← position, UInt32.ofNat_toNat]
  have behind : (localRegion records ++ centralRegion records).length =
      (st'.outIndex + UInt32.ofNat (centralRegion records).length).toNat := by
    rw [UInt32.toNat_add_of_lt, position, size, List.length_append]
    rw [position, size]
    exact fits
  simp only [finishArchive, xseekwrite, outDir, size, directory, fout]
  rw [pwrite_append position.symm, pwrite_append behind, layout, closeFooter, offset, List.append_assoc]

theorem length_le_encodeDirectory (entries : List DirEntry) :
    entries.length ≤ (encodeDirectory entries).length := by
  induction entries with
  | nil => exact Nat.le_refl _
  | cons e es ih =>
    simp only [encodeDirectory, List.flatMap_cons, List.length_append, DirEntry.encode_length,
      List.length_cons] at ih ⊢
    omega

/-- **What `zipadjust` makes of an input** whose directory lists `entries`. -/
theorem zipadjust_of_directory {fin : Bytes} {decompress : Bool} {footer : CentralFooter}
    {entries : List DirEntry} {records : List Record} {rest : Bytes}
    (found : findFooter fin (searchLength (UInt32.ofNat fin.length)) = .ok (some footer))
    (offset : footer.centralDirectoryOffset ≠ 0)
    (inside : footer.centralDirectoryOffset.toNat ≤ fin.length) (below : fin.length < 2 ^ 32)
    (directory : fin.drop footer.centralDirectoryOffset.toNat = encodeDirectory entries ++ rest)
    (ends : EndsDirectory rest) (rewrites : RewritesAll Z fin decompress 0 entries records)
    (fits : (localRegion records).length + (centralRegion records).length < 2 ^ 32) :
    zipadjust Z fin decompress = .ok (layout records (closeFooter footer records)) := by
  have size : (UInt32.ofNat fin.length).toNat = fin.length := UInt32.toNat_ofNat_of_lt' (by simpa using below)
  have inSize : (UInt32.ofNat fin.length - footer.centralDirectoryOffset).toNat =
      fin.length - footer.centralDirectoryOffset.toNat := by
    rw [UInt32.toNat_sub_of_le _ _ (by rw [UInt32.le_iff_toNat_le, size]; exact inside), size]
  have whole : slice fin footer.centralDirectoryOffset.toNat
      (fin.length - footer.centralDirectoryOffset.toNat) = encodeDirectory entries ++ rest := by
    rw [slice, directory, List.take_of_length_le]
    exact Nat.le_of_eq (by rw [← directory, List.length_drop])
  have directoryLen := congrArg List.length directory
  rw [List.length_drop, List.length_append] at directoryLen
  have count := length_le_encodeDirectory entries
  obtain ⟨st', run, appended⟩ := adjustLoop_run Z ends entries records
    (startState (encodeDirectory entries ++ rest) (fin.length - footer.centralDirectoryOffset.toNat))
    (fin.length - footer.centralDirectoryOffset.toNat + 1) (by omega)
    (startState_aligned (by rw [List.length_append]; omega)) rfl rewrites (by simp [startState]; omega)
  rw [zipadjust, found]
  simp only [bind, Except.bind]
  rw [if_neg offset, inSize, xseekread_ok (by omega), whole]
  simp only
  rw [startState] at run
  rw [run]
  simp only
  rw [finishArchive_eq rfl rfl appended fits]

/-- Every stream the code inflates has the length its header declares. -/
def DeclaredAll (fin : Bytes) (decompress : Bool) : Prop :=
  ∀ footer entries rest, findFooter fin (searchLength (UInt32.ofNat fin.length)) = .ok (some footer) →
    directoryOf fin footer = encodeDirectory entries ++ rest →
    ∀ e ∈ entries, Declared Z fin decompress e.header

theorem RewritesAll.centralRegion_le {fin : Bytes} {decompress : Bool} {pos : Nat} {entries : List DirEntry}
    {records : List Record} (rewrites : RewritesAll Z fin decompress pos entries records) :
    (centralRegion records).length ≤ (encodeDirectory entries).length := by
  induction rewrites with
  | nil => exact Nat.le_refl _
  | cons first _ ih =>
    simp only [centralRegion, encodeDirectory, List.flatMap_cons, List.length_append,
      Record.centralBytes_length, DirEntry.encode_length, first.name] at ih ⊢
    omega

/-- Everything written before the footer is part of the output. -/
theorem le_finishArchive_length (footer : CentralFooter) (st : AdjustState) :
    (pwrite st.fout st.outIndex.toNat (st.directoryOut.take (UInt32.ofNat st.outDirIndex).toNat)).length ≤
      (finishArchive footer st).length := by
  simp only [finishArchive, xseekwrite]
  exact le_pwrite_length ..

/-- **What a return of 1 tells.** The output is a layout of one record per entry
of the directory the search led to, and that directory is not empty. -/
theorem zipadjust_inv {fin x : Bytes} {decompress : Bool} (run : zipadjust Z fin decompress = .ok x)
    (fits : x.length < 2 ^ 32) (declared : DeclaredAll Z fin decompress) :
    ∃ footer entries records rest,
      findFooter fin (searchLength (UInt32.ofNat fin.length)) = .ok (some footer) ∧
      directoryOf fin footer = encodeDirectory entries ++ rest ∧ EndsDirectory rest ∧ entries ≠ [] ∧
      RewritesAll Z fin decompress 0 entries records ∧ x = layout records (closeFooter footer records) := by
  rw [zipadjust] at run
  cases found : findFooter fin (searchLength (UInt32.ofNat fin.length)) with
  | error fault =>
    rw [found] at run
    cases run
  | ok result =>
    rw [found] at run
    simp only [bind, Except.bind] at run
    cases result with
    | none => cases run
    | some footer =>
      simp only at run
      by_cases offset : footer.centralDirectoryOffset = 0
      · rw [if_pos offset] at run
        cases run
      rw [if_neg offset] at run
      cases directoryRead : xseekread fin footer.centralDirectoryOffset.toNat
          (UInt32.ofNat fin.length - footer.centralDirectoryOffset).toNat with
      | error fault =>
        rw [directoryRead] at run
        cases run
      | ok directoryIn =>
        obtain ⟨rfl, len⟩ := xseekread_inv directoryRead
        rw [directoryRead] at run
        simp only at run
        cases loop : adjustLoop Z fin decompress
            ((UInt32.ofNat fin.length - footer.centralDirectoryOffset).toNat + 1)
            (startState (directoryOf fin footer)
              (UInt32.ofNat fin.length - footer.centralDirectoryOffset).toNat) with
        | error fault =>
          rw [startState, directoryOf] at loop
          rw [loop] at run
          cases run
        | ok st' =>
          have whole := le_finishArchive_length footer st'
          rw [startState, directoryOf] at loop
          rw [loop] at run
          simp only at run
          cases run
          have prior := le_pwrite_length st'.fout
            (st'.directoryOut.take (UInt32.ofNat st'.outDirIndex).toNat) st'.outIndex.toNat
          obtain ⟨entries, records, rest, directory, ends, rewrites, appended⟩ := adjustLoop_inv Z _ _ _ loop
            (startState_aligned len) (by omega) (declared footer · · found)
          rw [List.drop_zero] at directory
          have total := congrArg List.length directory
          have inSize := (UInt32.ofNat fin.length - footer.centralDirectoryOffset).toNat_lt
          rw [len, List.length_append] at total
          have behind := rewrites.centralRegion_le
          have outDir : st'.outDirIndex = (centralRegion records).length := by
            rw [appended.outDirIndex, Nat.zero_add]
          have size : (UInt32.ofNat st'.outDirIndex).toNat = (centralRegion records).length := by
            rw [UInt32.toNat_ofNat_of_lt', outDir]
            simp only [UInt32.size]
            omega
          rw [size, ← outDir, appended.directory, appended.position, pwrite_append rfl] at whole
          rw [List.length_append, appended.fout] at whole
          simp only [List.take_zero, List.nil_append] at whole
          refine ⟨footer, entries, records, rest, rfl, directory, ends, ?_, rewrites,
            finishArchive_eq rfl rfl appended (by omega)⟩
          rintro rfl
          have other := ends.other
          have long := ends.long
          rw [← show _ = rest from directory, slice, List.take_take] at other
          rw [← show _ = rest from directory, len] at long
          rw [Nat.min_eq_left long] at other
          exact other (findFooter_some found).2.2

theorem EndsDirectory.not_entry {rest : Bytes} (ends : EndsDirectory rest) (e : DirEntry) (more : Bytes) :
    rest ≠ e.encode ++ more := by
  rintro rfl
  apply ends.other
  rw [DirEntry.encode, CentralHeader.encode]
  simp only [List.append_assoc]
  rw [List.take_left' (bytes32_length _), word32_bytes32, e.signature]

theorem DirEntry.ext' {e e' : DirEntry} (header : e.header = e'.header) (name : e.name = e'.name)
    (extra : e.extra = e'.extra) (comment : e.comment = e'.comment) : e = e' := by
  cases e
  cases e'
  cases header
  cases name
  cases extra
  cases comment
  rfl

theorem DirEntry.encode_append_inj {e e' : DirEntry} {more more' : Bytes}
    (same : e.encode ++ more = e'.encode ++ more') : e = e' ∧ more = more' := by
  simp only [DirEntry.encode, List.append_assoc] at same
  obtain ⟨header, same⟩ := List.append_inj same (by simp)
  have header : e.header = e'.header := by
    rw [← CentralHeader.decode_encode e.header, header, CentralHeader.decode_encode]
  obtain ⟨name, same⟩ := List.append_inj same (by rw [← e.nameLength, header, e'.nameLength])
  obtain ⟨extra, same⟩ := List.append_inj same (by rw [← e.extraLength, header, e'.extraLength])
  obtain ⟨comment, same⟩ := List.append_inj same (by rw [← e.commentLength, header, e'.commentLength])
  exact ⟨DirEntry.ext' header name extra comment, same⟩

/-- Entries read from the start of a directory are its first entries. -/
theorem directory_initial {rest rest' : Bytes} (ends' : EndsDirectory rest') :
    ∀ {entries entries' : List DirEntry},
      encodeDirectory entries ++ rest = encodeDirectory entries' ++ rest' → entries <+: entries'
  | [], _, _ => ⟨_, rfl⟩
  | e :: es, [], same => by
    rw [encodeDirectory, encodeDirectory, List.flatMap_cons, List.append_assoc] at same
    exact absurd same.symm (ends'.not_entry e _)
  | e :: es, e' :: es', same => by
    rw [encodeDirectory, encodeDirectory, List.flatMap_cons, List.flatMap_cons, List.append_assoc,
      List.append_assoc] at same
    obtain ⟨rfl, tail⟩ := DirEntry.encode_append_inj same
    exact List.cons_prefix_cons.mpr ⟨rfl, directory_initial ends' tail⟩

/-- A central directory is read in one way only. -/
theorem directory_unique {rest rest' : Bytes} {entries entries' : List DirEntry} (ends : EndsDirectory rest)
    (ends' : EndsDirectory rest')
    (same : encodeDirectory entries ++ rest = encodeDirectory entries' ++ rest') : entries = entries' := by
  have first := directory_initial ends' same
  have second := directory_initial ends same.symm
  exact first.eq_of_length (Nat.le_antisymm first.length_le second.length_le)

end OpenDelta.Zip
