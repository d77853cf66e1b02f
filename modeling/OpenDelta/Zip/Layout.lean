import OpenDelta.Zip.EntryData

/-!
# The archive the rewriting loop builds

`DirEntry` is an entry of a central directory with its three variable parts,
`Record` an entry of the output: a local record whose header is in line with
its central header, the name and the data. `layout` puts records into a file:
all local records, all central headers with their names, one footer.

`Rewrites` says which record the code makes of an entry. One turn of the loop
appends that record (`adjustEntry_step`), so a whole run appends all of them
(`adjustLoop_run`). Conversely a successful run has visited a directory of
entries and has made a record of each (`adjustLoop_inv`), as long as the
inflater wrote what the headers declare and the output stayed below 4 GiB.
-/

namespace OpenDelta.Zip
open ByteFile LittleEndian

/-- A central directory entry: the header and the parts whose lengths it gives. -/
structure DirEntry where
  header : CentralHeader
  name : Bytes
  extra : Bytes
  comment : Bytes
  signature : header.signature = magicCentralHeader
  nameLength : header.lengthFilename.toNat = name.length
  extraLength : header.lengthExtra.toNat = extra.length
  commentLength : header.lengthComment.toNat = comment.length

namespace DirEntry

def encode (e : DirEntry) : Bytes := e.header.encode ++ (e.name ++ (e.extra ++ e.comment))

@[simp] theorem encode_length (e : DirEntry) :
    e.encode.length = 46 + e.name.length + e.extra.length + e.comment.length := by
  simp only [encode, List.length_append, CentralHeader.encode_length]
  omega

end DirEntry

/-- A central directory: its entries back to back. -/
def encodeDirectory (entries : List DirEntry) : Bytes := entries.flatMap DirEntry.encode

/-- What follows a central directory: four bytes that are not the signature of
another entry. -/
structure EndsDirectory (rest : Bytes) : Prop where
  long : 4 ≤ rest.length
  other : word32 (rest.take 4) ≠ magicCentralHeader

/-- An entry of the output. -/
structure Record where
  localHeader : LocalHeader
  central : CentralHeader
  name : Bytes
  data : Bytes
  signature : central.signature = magicCentralHeader
  nameLength : central.lengthFilename.toNat = name.length
  nameShort : name.length < 1024
  dataLength : central.sizeCompressed.toNat = data.length
  flags : central.flags = 0
  noExtra : central.lengthExtra = 0
  noComment : central.lengthComment = 0
  synced : rewriteLocal central localHeader = localHeader

namespace Record

def localBytes (r : Record) : Bytes := r.localHeader.encode ++ (r.name ++ r.data)

def centralBytes (r : Record) : Bytes := r.central.encode ++ r.name

@[simp] theorem localBytes_length (r : Record) :
    r.localBytes.length = 30 + r.name.length + r.data.length := by
  simp only [localBytes, List.length_append, LocalHeader.encode_length]
  omega

@[simp] theorem centralBytes_length (r : Record) : r.centralBytes.length = 46 + r.name.length := by
  simp [centralBytes]

end Record

/-- All local records, in order. -/
def localRegion (records : List Record) : Bytes := records.flatMap Record.localBytes

/-- All central headers with their names, in order. -/
def centralRegion (records : List Record) : Bytes := records.flatMap Record.centralBytes

/-- The file of these records under this footer. -/
def layout (records : List Record) (footer : CentralFooter) : Bytes :=
  localRegion records ++ (centralRegion records ++ footer.encode)

/-- Every central offset is the position of its local record, the first at `pos`. -/
def Placed : Nat → List Record → Prop
  | _, [] => True
  | pos, r :: rs => r.central.offset.toNat = pos ∧ Placed (pos + r.localBytes.length) rs

/-! ## One turn -/

variable (Z : Zlib)

/-- The code makes record `r` of entry `e` when `out_index` is `outIndex`. -/
structure Rewrites (fin : Bytes) (decompress : Bool) (outIndex : UInt32) (e : DirEntry) (r : Record) :
    Prop where
  central : r.central = rewriteCentral decompress outIndex e.header
  name : r.name = e.name
  localHeader : ∃ l, xseekread fin e.header.offset.toNat sizeofLocalHeader = .ok l ∧
    r.localHeader = rewriteLocal r.central (LocalHeader.decode l)
  data : entryData Z fin decompress e.header = .ok r.data

@[simp] theorem rewriteCentral_lengthFilename (d : Bool) (o : UInt32) (h : CentralHeader) :
    (rewriteCentral d o h).lengthFilename = h.lengthFilename := by
  simp only [rewriteCentral]
  split <;> rfl

@[simp] theorem rewriteCentral_signature (d : Bool) (o : UInt32) (h : CentralHeader) :
    (rewriteCentral d o h).signature = h.signature := by
  simp only [rewriteCentral]
  split <;> rfl

@[simp] theorem rewriteCentral_offset (d : Bool) (o : UInt32) (h : CentralHeader) :
    (rewriteCentral d o h).offset = o := by
  simp only [rewriteCentral]
  split <;> rfl

@[simp] theorem rewriteCentral_lengthExtra (d : Bool) (o : UInt32) (h : CentralHeader) :
    (rewriteCentral d o h).lengthExtra = 0 := rfl

@[simp] theorem rewriteCentral_lengthComment (d : Bool) (o : UInt32) (h : CentralHeader) :
    (rewriteCentral d o h).lengthComment = 0 := rfl

@[simp] theorem rewriteCentral_flags (d : Bool) (o : UInt32) (h : CentralHeader) :
    (rewriteCentral d o h).flags = 0 := by
  have none : h.flags &&& 0 = 0 := by simp
  simp only [rewriteCentral]
  split <;> exact none

/-- An inflated entry comes out stored, at its uncompressed size. -/
theorem rewriteCentral_inflated {d : Bool} {o : UInt32} {h : CentralHeader}
    (inflated : d ∧ h.compressionMethod = 8) :
    (rewriteCentral d o h).compressionMethod = 0 ∧
      (rewriteCentral d o h).sizeCompressed = h.sizeUncompressed := by
  simp only [rewriteCentral]
  rw [if_pos inflated]
  exact ⟨rfl, rfl⟩

/-- A copied entry keeps method and size. -/
theorem rewriteCentral_copied {d : Bool} {o : UInt32} {h : CentralHeader}
    (copied : ¬ (d ∧ h.compressionMethod = 8)) :
    (rewriteCentral d o h).compressionMethod = h.compressionMethod ∧
      (rewriteCentral d o h).sizeCompressed = h.sizeCompressed := by
  simp only [rewriteCentral]
  rw [if_neg copied]
  exact ⟨rfl, rfl⟩

theorem rewriteLocal_idem (c : CentralHeader) (l : LocalHeader) :
    rewriteLocal c (rewriteLocal c l) = rewriteLocal c l := rfl

/-- The loop's variables after a turn that made record `r` of entry `e`. -/
def AdjustState.advance (st : AdjustState) (e : DirEntry) (r : Record) : AdjustState where
  directoryIn := pwrite st.directoryIn st.inIndex r.central.encode
  inIndex := st.inIndex + e.encode.length
  directoryOut := pwrite st.directoryOut st.outDirIndex r.centralBytes
  outDirIndex := st.outDirIndex + r.centralBytes.length
  fout := st.fout ++ r.localBytes
  outIndex := UInt32.ofNat (st.fout.length + r.localBytes.length)

theorem UInt32.toNat_add_of_lt {a b : UInt32} (fits : a.toNat + b.toNat < 2 ^ 32) :
    (a + b).toNat = a.toNat + b.toNat := by
  rw [UInt32.toNat_add, Nat.mod_eq_of_lt fits]

/-- **One turn** appends the record made of the entry at the cursor. -/
theorem adjustEntry_step {fin : Bytes} {decompress : Bool} {st : AdjustState} {e : DirEntry}
    {more : Bytes} {r : Record}
    (directory : st.directoryIn.drop st.inIndex = e.encode ++ more)
    (position : st.outIndex.toNat = st.fout.length)
    (room : st.outDirIndex + r.centralBytes.length ≤ st.directoryOut.length)
    (fits : st.fout.length + r.localBytes.length < 2 ^ 32)
    (rewrites : Rewrites Z fin decompress st.outIndex e r) :
    adjustEntry Z fin decompress st = .ok (some (st.advance e r)) := by
  obtain ⟨central, name, ⟨l, localRead, localEq⟩, data⟩ := rewrites
  have nameLen : e.header.lengthFilename.toNat = e.name.length := e.nameLength
  have nameShort := r.nameShort
  have dataLen := r.dataLength
  have total := congrArg List.length directory
  simp only [List.length_drop, List.length_append, DirEntry.encode_length] at total
  have headerAt : slice st.directoryIn st.inIndex 46 = e.header.encode :=
    slice_at (by rw [directory, DirEntry.encode, List.append_assoc]) (by simp)
  have signatureAt : word32 (slice st.directoryIn st.inIndex 4) = magicCentralHeader := by
    rw [slice_at (a := bytes32 e.header.signature) (g := e.encode.drop 4 ++ more)
      (by rw [directory, DirEntry.encode, CentralHeader.encode]; simp) (by simp), word32_bytes32, e.signature]
  have nameAt : slice st.directoryIn (st.inIndex + 46) e.name.length = e.name := by
    refine slice_at (g := e.extra ++ (e.comment ++ more)) ?_ rfl
    rw [← List.drop_drop, directory, DirEntry.encode]
    have headerLen : e.header.encode.length = 46 := by simp
    rw [List.append_assoc, ← headerLen, List.drop_left]
    simp only [List.append_assoc]
  simp only [Record.localBytes_length, Record.centralBytes_length] at fits room
  have outName : (st.outIndex + UInt32.ofNat 30).toNat = st.fout.length + 30 := by
    rw [UInt32.toNat_add_of_lt, position]
    · rfl
    · rw [position, show (UInt32.ofNat 30).toNat = 30 from rfl]
      omega
  have outData : (st.outIndex + UInt32.ofNat 30 + e.header.lengthFilename.toUInt32).toNat =
      st.fout.length + 30 + e.name.length := by
    rw [UInt32.toNat_add_of_lt, outName, UInt16.toNat_toUInt32, nameLen]
    rw [outName, UInt16.toNat_toUInt32, nameLen, ← name]
    omega
  have outNext : st.outIndex + UInt32.ofNat 30 + e.header.lengthFilename.toUInt32 + r.localHeader.sizeCompressed =
      UInt32.ofNat (st.fout.length + r.localBytes.length) := by
    have sizeEq : r.localHeader.sizeCompressed = r.central.sizeCompressed := by rw [localEq]; rfl
    apply UInt32.toNat_inj.mp
    rw [UInt32.toNat_add_of_lt, outData, sizeEq, dataLen, UInt32.toNat_ofNat_of_lt']
    · simp only [Record.localBytes_length, name]
      omega
    · simpa using fits
    · rw [outData, sizeEq, dataLen, ← name]
      omega
  have appended : pwrite (pwrite (pwrite st.fout st.outIndex.toNat r.localHeader.encode)
      (st.fout.length + 30) e.name) (st.fout.length + 30 + e.name.length) r.data = st.fout ++ r.localBytes := by
    have afterHeader : (st.fout ++ r.localHeader.encode).length = st.fout.length + 30 := by simp
    have afterName : (st.fout ++ r.localHeader.encode ++ e.name).length =
        st.fout.length + 30 + e.name.length := by simp [Nat.add_assoc]
    rw [pwrite_append position.symm, pwrite_append afterHeader, pwrite_append afterName, ← name]
    simp [Record.localBytes]
  have copied : slice (pwrite st.directoryIn st.inIndex r.central.encode) st.inIndex (46 + e.name.length) =
      r.centralBytes := by
    have behind : st.directoryIn.drop (st.inIndex + 46) = e.name ++ (e.extra ++ (e.comment ++ more)) := by
      have headerLen : e.header.encode.length = 46 := by simp
      rw [← List.drop_drop, directory, DirEntry.encode, List.append_assoc, ← headerLen, List.drop_left]
      simp only [List.append_assoc]
    rw [slice, pwrite_drop_here (by omega), CentralHeader.encode_length, behind, Record.centralBytes, name,
      ← List.append_assoc]
    exact List.take_left' (by simp)
  simp only [adjustEntry, sizeofCentralHeader, sizeofLocalHeader, signatureAt, headerAt,
    CentralHeader.decode_encode, nameLen, nameAt]
  rw [if_neg (by omega), if_neg (fun differ => differ rfl), if_neg (by omega),
    if_neg (by rw [← name]; omega), if_neg (by omega)]
  rw [show (30 : Nat) = sizeofLocalHeader from rfl, localRead]
  simp only [bind, Except.bind, xseekwrite, ← central, ← localEq, sizeofLocalHeader, outName, outData,
    writeData_at, data, Except.map, appended]
  rw [if_neg (by rw [← name]; omega)]
  simp only [outNext, AdjustState.advance, copied, DirEntry.encode_length, Record.centralBytes_length, name,
    e.extraLength, e.commentLength, Nat.add_assoc]

/-- At the end of the directory the loop breaks. -/
theorem adjustEntry_end {fin : Bytes} {decompress : Bool} {st : AdjustState} {rest : Bytes}
    (directory : st.directoryIn.drop st.inIndex = rest) (ends : EndsDirectory rest) :
    adjustEntry Z fin decompress st = .ok none := by
  have total := congrArg List.length directory
  have long := ends.long
  rw [List.length_drop] at total
  have signatureAt : word32 (slice st.directoryIn st.inIndex 4) ≠ magicCentralHeader := by
    rw [slice, directory]
    exact ends.other
  rw [adjustEntry, if_neg (by omega), if_pos signatureAt]

/-- Entries that lie one after the other in a directory. -/
theorem decode_entry (dir : Bytes) {h : CentralHeader}
    (header : CentralHeader.decode (dir.take 46) = h)
    (signature : word32 (dir.take 4) = magicCentralHeader)
    (inside : 46 + h.lengthFilename.toNat + h.lengthExtra.toNat + h.lengthComment.toNat ≤ dir.length) :
    ∃ (e : DirEntry) (more : Bytes), dir = e.encode ++ more ∧ e.header = h := by
  have image : dir.take 46 = h.encode := by
    rw [← header, CentralHeader.encode_decode]
    rw [List.length_take]
    omega
  have signatureEq : h.signature = magicCentralHeader := by
    rw [← signature, ← word32_bytes32 h.signature]
    congr 1
    have front : dir.take 4 = (dir.take 46).take 4 := by simp [List.take_take]
    rw [front, image, CentralHeader.encode]
    exact (List.take_left' (bytes32_length _)).symm
  let e : DirEntry :=
    { header := h
      name := slice dir 46 h.lengthFilename.toNat
      extra := slice dir (46 + h.lengthFilename.toNat) h.lengthExtra.toNat
      comment := slice dir (46 + h.lengthFilename.toNat + h.lengthExtra.toNat) h.lengthComment.toNat
      signature := signatureEq
      nameLength := by rw [slice_length]; omega
      extraLength := by rw [slice_length]; omega
      commentLength := by rw [slice_length]; omega }
  refine ⟨e, dir.drop (46 + h.lengthFilename.toNat + h.lengthExtra.toNat + h.lengthComment.toNat), ?_, rfl⟩
  have parts : e.encode = slice dir 0 (46 + h.lengthFilename.toNat + h.lengthExtra.toNat +
      h.lengthComment.toNat) := by
    rw [← slice_add, ← slice_add, ← slice_add, DirEntry.encode]
    simp only [Nat.zero_add, List.append_assoc, e]
    rw [← image]
    rfl
  rw [parts, slice, List.drop_zero, List.take_append_drop]

/-- A break happens at the end of the directory. -/
theorem adjustEntry_none {fin : Bytes} {decompress : Bool} {st : AdjustState}
    (run : adjustEntry Z fin decompress st = .ok none) : EndsDirectory (st.directoryIn.drop st.inIndex) := by
  simp only [adjustEntry] at run
  by_cases short : st.directoryIn.length < st.inIndex + 4
  · rw [if_pos short] at run
    cases run
  rw [if_neg short] at run
  by_cases signature : word32 (slice st.directoryIn st.inIndex 4) = magicCentralHeader
  · exfalso
    rw [if_neg (fun differ => differ signature)] at run
    generalize CentralHeader.decode (slice st.directoryIn st.inIndex sizeofCentralHeader) = header at run
    split at run
    · cases run
    split at run
    · cases run
    split at run
    · cases run
    cases localRead : xseekread fin header.offset.toNat sizeofLocalHeader with
    | error fault =>
      rw [localRead] at run
      cases run
    | ok l =>
      rw [localRead] at run
      simp only [bind, Except.bind] at run
      split at run
      · cases run
      · split at run <;> cases run
  · exact ⟨by rw [List.length_drop]; omega, signature⟩

/-- What a turn that goes on has seen, and the variables after it. -/
theorem adjustEntry_some {fin : Bytes} {decompress : Bool} {st st' : AdjustState}
    (run : adjustEntry Z fin decompress st = .ok (some st')) :
    ∃ (h : CentralHeader) (l w : Bytes),
      h = CentralHeader.decode (slice st.directoryIn st.inIndex 46) ∧
      word32 (slice st.directoryIn st.inIndex 4) = magicCentralHeader ∧
      st.inIndex + 46 + h.lengthFilename.toNat ≤ st.directoryIn.length ∧ h.lengthFilename.toNat < 1024 ∧
      xseekread fin h.offset.toNat sizeofLocalHeader = .ok l ∧ entryData Z fin decompress h = .ok w ∧
      st'.directoryIn = pwrite st.directoryIn st.inIndex (rewriteCentral decompress st.outIndex h).encode ∧
      st'.inIndex = st.inIndex + 46 + h.lengthFilename.toNat + h.lengthExtra.toNat + h.lengthComment.toNat ∧
      st'.fout = pwrite (pwrite (pwrite st.fout st.outIndex.toNat
          (rewriteLocal (rewriteCentral decompress st.outIndex h) (LocalHeader.decode l)).encode)
        (st.outIndex + UInt32.ofNat 30).toNat
        (slice st.directoryIn (st.inIndex + 46) h.lengthFilename.toNat))
        (st.outIndex + UInt32.ofNat 30 + h.lengthFilename.toUInt32).toNat w := by
  simp only [adjustEntry] at run
  generalize headerEq : CentralHeader.decode (slice st.directoryIn st.inIndex sizeofCentralHeader) = h at run
  by_cases short : st.directoryIn.length < st.inIndex + 4
  · rw [if_pos short] at run
    cases run
  rw [if_neg short] at run
  by_cases signature : word32 (slice st.directoryIn st.inIndex 4) = magicCentralHeader
  swap
  · rw [if_pos signature] at run
    cases run
  rw [if_neg (fun differ => differ signature)] at run
  by_cases cut : st.directoryIn.length < st.inIndex + sizeofCentralHeader
  · rw [if_pos cut] at run
    cases run
  rw [if_neg cut] at run
  by_cases nameLong : 1024 ≤ h.lengthFilename.toNat
  · rw [if_pos nameLong] at run
    cases run
  rw [if_neg nameLong] at run
  by_cases nameCut : st.directoryIn.length < st.inIndex + sizeofCentralHeader + h.lengthFilename.toNat
  · rw [if_pos nameCut] at run
    cases run
  rw [if_neg nameCut] at run
  cases localRead : xseekread fin h.offset.toNat sizeofLocalHeader with
  | error fault =>
    rw [localRead] at run
    cases run
  | ok l =>
    rw [localRead] at run
    simp only [bind, Except.bind, writeData_at] at run
    cases data : entryData Z fin decompress h with
    | error fault =>
      rw [data] at run
      cases run
    | ok w =>
      rw [data] at run
      simp only [Except.map] at run
      split at run
      · cases run
      · cases run
        exact ⟨h, l, w, headerEq.symm, signature, Nat.le_of_not_lt nameCut, Nat.lt_of_not_le nameLong,
          localRead, data, rfl, rfl, rfl⟩

/-! ## Whole runs -/

/-- The code makes these records of these entries, the first one at `pos`. -/
inductive RewritesAll (fin : Bytes) (decompress : Bool) : Nat → List DirEntry → List Record → Prop
  | nil (pos : Nat) : RewritesAll fin decompress pos [] []
  | cons {pos : Nat} {e : DirEntry} {es : List DirEntry} {r : Record} {rs : List Record} :
      Rewrites Z fin decompress (UInt32.ofNat pos) e r →
      RewritesAll fin decompress (pos + r.localBytes.length) es rs →
      RewritesAll fin decompress pos (e :: es) (r :: rs)

/-- The loop's invariant: `out_index` is the end of the output, the output
directory has the input directory's size and lags behind it. -/
structure AdjustState.Aligned (st : AdjustState) : Prop where
  position : st.outIndex.toNat = st.fout.length
  room : st.directoryOut.length = st.directoryIn.length
  behind : st.outDirIndex ≤ st.inIndex

/-- The loop went from `st` to `st'` and appended `records`. -/
structure Appended (st st' : AdjustState) (records : List Record) : Prop where
  fout : st'.fout = st.fout ++ localRegion records
  directory : st'.directoryOut.take st'.outDirIndex =
    st.directoryOut.take st.outDirIndex ++ centralRegion records
  outDirIndex : st'.outDirIndex = st.outDirIndex + (centralRegion records).length
  position : st'.outIndex.toNat = st'.fout.length

theorem AdjustState.Aligned.outIndex_eq {st : AdjustState} (aligned : st.Aligned) :
    UInt32.ofNat st.fout.length = st.outIndex := by
  rw [← aligned.position, UInt32.ofNat_toNat]

/-- The room one record needs in the output directory. -/
theorem record_room {st : AdjustState} {e : DirEntry} {more : Bytes} {r : Record} (aligned : st.Aligned)
    (directory : st.directoryIn.drop st.inIndex = e.encode ++ more) (name : r.name = e.name) :
    st.inIndex + e.encode.length ≤ st.directoryIn.length ∧
      st.outDirIndex + r.centralBytes.length ≤ st.directoryOut.length := by
  have total := congrArg List.length directory
  have room := aligned.room
  have behind := aligned.behind
  simp only [List.length_drop, List.length_append, DirEntry.encode_length] at total
  simp only [DirEntry.encode_length, Record.centralBytes_length, name]
  omega

theorem advance_aligned {st : AdjustState} {e : DirEntry} {more : Bytes} {r : Record} (aligned : st.Aligned)
    (directory : st.directoryIn.drop st.inIndex = e.encode ++ more) (name : r.name = e.name)
    (fits : st.fout.length + r.localBytes.length < 2 ^ 32) : (st.advance e r).Aligned := by
  obtain ⟨inside, room⟩ := record_room aligned directory name
  have behind := aligned.behind
  refine ⟨?_, ?_, ?_⟩
  · simp only [AdjustState.advance, List.length_append]
    exact UInt32.toNat_ofNat_of_lt' (by simpa using fits)
  · simp only [AdjustState.advance]
    rw [pwrite_length room, pwrite_length, aligned.room]
    rw [DirEntry.encode_length] at inside
    rw [CentralHeader.encode_length]
    omega
  · simp only [AdjustState.advance, DirEntry.encode_length, Record.centralBytes_length, name]
    omega

theorem advance_directory {st : AdjustState} {e : DirEntry} {more : Bytes} {r : Record}
    (directory : st.directoryIn.drop st.inIndex = e.encode ++ more) :
    (st.advance e r).directoryIn.drop (st.advance e r).inIndex = more := by
  simp only [AdjustState.advance]
  rw [pwrite_drop, ← List.drop_drop, directory, List.drop_left]
  rw [CentralHeader.encode_length, DirEntry.encode_length]
  omega

theorem Appended.cons {st st' : AdjustState} {e : DirEntry} {more : Bytes} {r : Record} {rs : List Record}
    (aligned : st.Aligned) (directory : st.directoryIn.drop st.inIndex = e.encode ++ more)
    (name : r.name = e.name) (rest : Appended (st.advance e r) st' rs) : Appended st st' (r :: rs) := by
  obtain ⟨_, room⟩ := record_room aligned directory name
  refine ⟨?_, ?_, ?_, rest.position⟩
  · rw [rest.fout]
    simp [AdjustState.advance, localRegion]
  · rw [rest.directory]
    simp only [AdjustState.advance, centralRegion, List.flatMap_cons]
    rw [pwrite_take room, List.append_assoc]
  · rw [rest.outDirIndex]
    simp only [AdjustState.advance, centralRegion, List.flatMap_cons, List.length_append]
    omega

/-- **A run over a directory** appends a record for each of its entries. -/
theorem adjustLoop_run {fin : Bytes} {decompress : Bool} {rest : Bytes} (ends : EndsDirectory rest) :
    ∀ entries records (st : AdjustState) fuel, entries.length < fuel → st.Aligned →
      st.directoryIn.drop st.inIndex = encodeDirectory entries ++ rest →
      RewritesAll Z fin decompress st.fout.length entries records →
      st.fout.length + (localRegion records).length < 2 ^ 32 →
      ∃ st', adjustLoop Z fin decompress fuel st = .ok st' ∧ Appended st st' records := by
  intro entries
  induction entries with
  | nil =>
    intro records st fuel enough aligned directory rewrites fits
    obtain ⟨fuel, rfl⟩ := Nat.exists_eq_add_of_lt enough
    cases rewrites
    refine ⟨st, ?_, ⟨by simp [localRegion], by simp [centralRegion], by simp [centralRegion], aligned.position⟩⟩
    rw [show [].length + fuel + 1 = fuel + 1 by simp, adjustLoop,
      adjustEntry_end Z (by simpa [encodeDirectory] using directory) ends]
    rfl
  | cons e es ih =>
    intro records st fuel enough aligned directory rewrites fits
    obtain ⟨fuel, rfl⟩ := Nat.exists_eq_add_of_lt enough
    cases rewrites with
    | @cons _ _ _ r rs first others =>
      rw [encodeDirectory, List.flatMap_cons, List.append_assoc] at directory
      rw [localRegion, List.flatMap_cons, List.length_append] at fits
      have step := adjustEntry_step Z directory aligned.position
        (record_room aligned directory first.name).2 (by omega) (aligned.outIndex_eq ▸ first)
      have next : (st.advance e r).fout.length = st.fout.length + r.localBytes.length := by
        simp [AdjustState.advance]
      obtain ⟨st', run, appended⟩ := ih rs (st.advance e r) (es.length + fuel + 1) (by omega)
        (advance_aligned aligned directory first.name (by omega)) (advance_directory directory)
        (next ▸ others) (by rw [next]; simp only [localRegion]; omega)
      refine ⟨st', ?_, appended.cons aligned directory first.name⟩
      rw [show (e :: es).length + fuel + 1 = es.length + fuel + 1 + 1 by simp only [List.length_cons]; omega,
        adjustLoop, step]
      exact run

/-- The inflater writes as many bytes as the entry declares. -/
def Declared (fin : Bytes) (decompress : Bool) (h : CentralHeader) : Prop :=
  decompress ∧ h.compressionMethod = 8 →
    ∀ w, entryData Z fin decompress h = .ok w → w.length = h.sizeUncompressed.toNat

/-- The record made of an entry whose data has the declared length. -/
theorem Rewrites.exists {fin l w : Bytes} {decompress : Bool} {e : DirEntry} (outIndex : UInt32)
    (nameShort : e.name.length < 1024)
    (localRead : xseekread fin e.header.offset.toNat sizeofLocalHeader = .ok l)
    (data : entryData Z fin decompress e.header = .ok w) (declared : Declared Z fin decompress e.header) :
    ∃ r, Rewrites Z fin decompress outIndex e r ∧ r.data = w := by
  have dataLength : (rewriteCentral decompress outIndex e.header).sizeCompressed.toNat = w.length := by
    by_cases inflated : decompress ∧ e.header.compressionMethod = 8
    · rw [(rewriteCentral_inflated inflated).2, declared inflated w data]
    · rw [(rewriteCentral_copied inflated).2, entryData_copy_length Z inflated data]
  let r : Record :=
    { localHeader := rewriteLocal (rewriteCentral decompress outIndex e.header) (LocalHeader.decode l)
      central := rewriteCentral decompress outIndex e.header
      name := e.name
      data := w
      signature := by rw [rewriteCentral_signature, e.signature]
      nameLength := by rw [rewriteCentral_lengthFilename, e.nameLength]
      nameShort
      dataLength
      flags := rewriteCentral_flags _ _ _
      noExtra := rfl
      noComment := rfl
      synced := rewriteLocal_idem _ _ }
  exact ⟨r, ⟨rfl, rfl, ⟨l, localRead, rfl⟩, data⟩, rfl⟩

theorem adjustEntry_directoryIn {fin : Bytes} {decompress : Bool} {st st' : AdjustState}
    (run : adjustEntry Z fin decompress st = .ok (some st')) :
    st'.directoryIn.length = st.directoryIn.length := by
  obtain ⟨h, l, w, -, -, inside, -, -, -, dirEq, -, -⟩ := adjustEntry_some Z run
  rw [dirEq, pwrite_length]
  rw [CentralHeader.encode_length]
  omega

theorem adjustLoop_succ {fin : Bytes} {decompress : Bool} {fuel : Nat} {st st' : AdjustState}
    (run : adjustLoop Z fin decompress (fuel + 1) st = .ok st') :
    (adjustEntry Z fin decompress st = .ok none ∧ st' = st) ∨
      ∃ st1, adjustEntry Z fin decompress st = .ok (some st1) ∧ adjustLoop Z fin decompress fuel st1 = .ok st' := by
  rw [adjustLoop] at run
  cases turn : adjustEntry Z fin decompress st with
  | error fault =>
    rw [turn] at run
    cases run
  | ok next =>
    rw [turn] at run
    cases next with
    | none =>
      cases run
      exact .inl ⟨rfl, rfl⟩
    | some st1 => exact .inr ⟨st1, rfl, run⟩

/-- A run that ends well never stood outside the input directory. -/
theorem adjustLoop_inside {fin : Bytes} {decompress : Bool} {fuel : Nat} {st st' : AdjustState}
    (run : adjustLoop Z fin decompress fuel st = .ok st') : st.inIndex + 4 ≤ st.directoryIn.length := by
  cases fuel with
  | zero => cases run
  | succ fuel =>
    rcases adjustLoop_succ Z run with ⟨turn, -⟩ | ⟨st1, turn, -⟩
    · have long := (adjustEntry_none Z turn).long
      rw [List.length_drop] at long
      omega
    · obtain ⟨h, l, w, -, -, inside, -⟩ := adjustEntry_some Z turn
      omega

theorem adjustEntry_grows {fin : Bytes} {decompress : Bool} {st st' : AdjustState}
    (run : adjustEntry Z fin decompress st = .ok (some st')) : st.fout.length ≤ st'.fout.length := by
  obtain ⟨h, l, w, -, -, -, -, -, -, -, -, foutEq⟩ := adjustEntry_some Z run
  rw [foutEq]
  exact Nat.le_trans (le_pwrite_length ..) (Nat.le_trans (le_pwrite_length ..) (le_pwrite_length ..))

/-- The output only grows. -/
theorem adjustLoop_grows {fin : Bytes} {decompress : Bool} :
    ∀ {fuel : Nat} {st st' : AdjustState}, adjustLoop Z fin decompress fuel st = .ok st' →
      st.fout.length ≤ st'.fout.length := by
  intro fuel
  induction fuel with
  | zero => intro st st' run; cases run
  | succ fuel ih =>
    intro st st' run
    rcases adjustLoop_succ Z run with ⟨-, rfl⟩ | ⟨st1, turn, rest⟩
    · exact Nat.le_refl _
    · exact Nat.le_trans (adjustEntry_grows Z turn) (ih rest)

/-- A turn of a run whose output stays below 4 GiB appends a record. -/
theorem adjustEntry_inv {fin : Bytes} {decompress : Bool} {st st1 : AdjustState} (aligned : st.Aligned)
    (turn : adjustEntry Z fin decompress st = .ok (some st1)) (inside : st1.inIndex ≤ st.directoryIn.length)
    (fits : st1.fout.length < 2 ^ 32)
    (declared : ∀ e more, st.directoryIn.drop st.inIndex = DirEntry.encode e ++ more →
      Declared Z fin decompress e.header) :
    ∃ e r more, st.directoryIn.drop st.inIndex = DirEntry.encode e ++ more ∧
      Rewrites Z fin decompress st.outIndex e r ∧ st1 = st.advance e r ∧
      st.fout.length + r.localBytes.length < 2 ^ 32 := by
  obtain ⟨h, l, w, headerEq, signature, nameInside, nameShort, localRead, data, -, indexEq, foutEq⟩ :=
    adjustEntry_some Z turn
  obtain ⟨e, more, directory, rfl⟩ := decode_entry (st.directoryIn.drop st.inIndex) headerEq.symm
    signature (by rw [List.length_drop]; omega)
  rw [e.nameLength] at nameShort
  obtain ⟨r, rewrites, rfl⟩ := Rewrites.exists Z st.outIndex nameShort localRead data
    (declared e more directory)
  have nameAt : slice st.directoryIn (st.inIndex + 46) e.header.lengthFilename.toNat = e.name := by
    rw [e.nameLength, slice, ← List.drop_drop, directory, DirEntry.encode, List.append_assoc,
      List.drop_left' (CentralHeader.encode_length _), List.append_assoc, List.take_left]
  have room := (record_room aligned directory rewrites.name).2
  -- each of the three writes ends below 4 GiB, so none of their positions wraps
  generalize rewriteLocal (rewriteCentral decompress st.outIndex e.header) (LocalHeader.decode l) = lh at foutEq
  have afterHeader : (st.fout ++ lh.encode).length = st.fout.length + 30 := by simp
  have afterName : (st.fout ++ lh.encode ++ e.name).length = st.fout.length + 30 + e.name.length := by
    simp [Nat.add_assoc]
  rw [nameAt, pwrite_append aligned.position.symm] at foutEq
  have headerFits : st.fout.length + 30 ≤ st1.fout.length := by
    rw [foutEq, ← afterHeader]
    exact Nat.le_trans (le_pwrite_length ..) (le_pwrite_length ..)
  have outName : (st.outIndex + UInt32.ofNat 30).toNat = st.fout.length + 30 := by
    rw [UInt32.toNat_add_of_lt, aligned.position]
    · rfl
    · rw [aligned.position, show (UInt32.ofNat 30).toNat = 30 from rfl]
      omega
  rw [outName, pwrite_append afterHeader] at foutEq
  have nameFits : st.fout.length + 30 + e.name.length ≤ st1.fout.length := by
    rw [foutEq, ← afterName]
    exact le_pwrite_length ..
  have outData : (st.outIndex + UInt32.ofNat 30 + e.header.lengthFilename.toUInt32).toNat =
      st.fout.length + 30 + e.name.length := by
    rw [UInt32.toNat_add_of_lt, outName, UInt16.toNat_toUInt32, e.nameLength]
    rw [outName, UInt16.toNat_toUInt32, e.nameLength]
    omega
  rw [outData, pwrite_append afterName] at foutEq
  have total : st.fout.length + r.localBytes.length = st1.fout.length := by
    rw [foutEq]
    simp only [Record.localBytes_length, List.length_append, LocalHeader.encode_length, rewrites.name]
    omega
  have step := adjustEntry_step Z directory aligned.position room (by omega) rewrites
  rw [turn] at step
  exact ⟨e, r, more, directory, rewrites, Option.some.inj (Except.ok.inj step), by omega⟩

/-- **A successful run** visited a directory and made a record of each entry. -/
theorem adjustLoop_inv {fin : Bytes} {decompress : Bool} :
    ∀ fuel (st st' : AdjustState), adjustLoop Z fin decompress fuel st = .ok st' → st.Aligned →
      st'.fout.length < 2 ^ 32 →
      (∀ entries rest, st.directoryIn.drop st.inIndex = encodeDirectory entries ++ rest →
        ∀ e ∈ entries, Declared Z fin decompress e.header) →
      ∃ entries records rest, st.directoryIn.drop st.inIndex = encodeDirectory entries ++ rest ∧
        EndsDirectory rest ∧ RewritesAll Z fin decompress st.fout.length entries records ∧
        Appended st st' records := by
  intro fuel
  induction fuel with
  | zero => intro st st' run; cases run
  | succ fuel ih =>
    intro st st' run aligned fits declared
    rcases adjustLoop_succ Z run with ⟨turn, rfl⟩ | ⟨st1, turn, rest⟩
    · exact ⟨[], [], _, rfl, adjustEntry_none Z turn, .nil _,
        by simp [localRegion], by simp [centralRegion], by simp [centralRegion], aligned.position⟩
    · have inside := adjustLoop_inside Z rest
      rw [adjustEntry_directoryIn Z turn] at inside
      obtain ⟨e, r, more, directory, rewrites, rfl, fits1⟩ := adjustEntry_inv Z aligned turn (by omega)
        (by have := adjustLoop_grows Z rest; omega)
        (fun e more here => declared [e] more (by simpa [encodeDirectory] using here) e (by simp))
      obtain ⟨entries, records, tail, directory1, ends, others, appended⟩ := ih (st.advance e r) st' rest
        (advance_aligned aligned directory rewrites.name fits1) fits (by
          intro entries tail here e' member
          rw [advance_directory directory] at here
          exact declared (e :: entries) tail (by simp [directory, here, encodeDirectory]) e' (by simp [member]))
      rw [advance_directory directory] at directory1
      have next : (st.advance e r).fout.length = st.fout.length + r.localBytes.length := by
        simp [AdjustState.advance]
      refine ⟨e :: entries, r :: records, tail, by simp [directory, directory1, encodeDirectory], ends, ?_,
        appended.cons aligned directory rewrites.name⟩
      exact .cons (aligned.outIndex_eq ▸ rewrites) (next ▸ others)

end OpenDelta.Zip
