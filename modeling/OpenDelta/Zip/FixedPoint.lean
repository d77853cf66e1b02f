import OpenDelta.Zip.Structure

/-!
# The store form is a fixed point

A layout is itself a ZIP whose directory lists its records, so a second run
makes the same records of it (`RewritesAll.self`) and the same file
(`zipadjust_of_layout`), whatever archive comment was put behind it in the
meantime: `withComment` is how a signer does that.
-/

namespace OpenDelta.Zip
open ByteFile LittleEndian

/-- The archive with the comment `c`: everything but the comment length, the new
length, the comment. -/
def withComment (x c : Bytes) : Bytes :=
  x.take (x.length - 2) ++ (bytes16 (UInt16.ofNat c.length) ++ c)

namespace Record

/-- A record as an entry of an input directory. -/
def asEntry (r : Record) : DirEntry where
  header := r.central
  name := r.name
  extra := []
  comment := []
  signature := r.signature
  nameLength := r.nameLength
  extraLength := by rw [r.noExtra]; rfl
  commentLength := by rw [r.noComment]; rfl

@[simp] theorem asEntry_encode (r : Record) : r.asEntry.encode = r.centralBytes := by
  simp [DirEntry.encode, asEntry, centralBytes]

end Record

theorem encodeDirectory_asEntry (records : List Record) :
    encodeDirectory (records.map Record.asEntry) = centralRegion records := by
  simp [encodeDirectory, centralRegion, List.flatMap_map]

/-- The layout of records as a ZIP, with an archive comment. -/
def ZipFile.ofRecords (records : List Record) (footer : CentralFooter) (comment : Bytes)
    (signature : footer.signature = magicCentralFooter)
    (offset : footer.centralDirectoryOffset.toNat = (localRegion records).length)
    (short : comment.length < 2 ^ 16) : ZipFile where
  body := localRegion records
  entries := records.map Record.asEntry
  footer := { footer with lengthComment := UInt16.ofNat comment.length }
  comment
  signature
  offset
  commentLength := UInt16.toNat_ofNat_of_lt' (by simpa using short)

theorem CentralFooter.encode_withComment (f : CentralFooter) (n : UInt16) :
    f.encode.take 20 ++ bytes16 n = { f with lengthComment := n }.encode := by
  have front : f.encode = (bytes32 f.signature ++ (bytes16 f.diskNumber ++ (bytes16 f.diskNumberCentralDirectory ++
      (bytes16 f.centralDirectoryEntriesThisDisk ++ (bytes16 f.centralDirectoryEntriesTotal ++
      (bytes32 f.centralDirectorySize ++ bytes32 f.centralDirectoryOffset)))))) ++ bytes16 f.lengthComment := by
    simp [CentralFooter.encode]
  rw [front, List.take_left' (by simp)]
  simp [CentralFooter.encode]

/-- A commented layout is the ZIP of its records with that comment. -/
theorem withComment_layout {records : List Record} {footer : CentralFooter} {c : Bytes}
    (signature : footer.signature = magicCentralFooter)
    (offset : footer.centralDirectoryOffset.toNat = (localRegion records).length)
    (short : c.length < 2 ^ 16) :
    withComment (layout records footer) c = (ZipFile.ofRecords records footer c signature offset short).bytes := by
  have cut : (layout records footer).take ((layout records footer).length - 2) =
      (localRegion records ++ centralRegion records) ++ footer.encode.take 20 := by
    rw [layout_length, layout, ← List.append_assoc, List.take_append, List.take_of_length_le]
    · congr 2
      rw [List.length_append]
      omega
    · rw [List.length_append]
      omega
  rw [withComment, cut, ZipFile.bytes, ZipFile.ofRecords, encodeDirectory_asEntry]
  simp only [← CentralFooter.encode_withComment, List.append_assoc]

variable (Z : Zlib)

/-- A header the code wrote is rewritten to itself at its own position. -/
theorem rewriteCentral_self {h : CentralHeader} {decompress : Bool} (flags : h.flags = 0)
    (noExtra : h.lengthExtra = 0) (noComment : h.lengthComment = 0)
    (stored : decompress → h.compressionMethod ≠ 8) : rewriteCentral decompress h.offset h = h := by
  have copied : ¬ (decompress ∧ h.compressionMethod = 8) := fun inflated => stored inflated.1 inflated.2
  cases h
  simp only at flags noExtra noComment
  subst flags noExtra noComment
  simp only [rewriteCentral, UInt16.and_zero]
  rw [if_neg copied]

/-- The code makes a record of itself, when it stands at its offset. -/
theorem Rewrites.self {f tail : Bytes} {decompress : Bool} {r : Record}
    (here : f.drop r.central.offset.toNat = r.localBytes ++ tail)
    (stored : decompress → r.central.compressionMethod ≠ 8) :
    Rewrites Z f decompress r.central.offset r.asEntry r := by
  have len := congrArg List.length here
  simp only [List.length_drop, List.length_append, Record.localBytes_length] at len
  have header : slice f r.central.offset.toNat 30 = r.localHeader.encode :=
    slice_at (by rw [here, Record.localBytes, List.append_assoc]) (by simp)
  have data : slice f (dataPosition r.central) r.central.sizeCompressed.toNat = r.data := by
    refine slice_at (g := tail) ?_ r.dataLength.symm
    have front : (r.localHeader.encode ++ r.name).length = 30 + r.name.length := by simp
    rw [dataPosition, r.noExtra, r.nameLength, sizeofLocalHeader, UInt16.toNat_zero, Nat.add_zero, Nat.add_assoc,
      ← front, ← List.drop_drop, here, Record.localBytes, ← List.append_assoc, List.append_assoc, List.drop_left]
  refine ⟨(rewriteCentral_self r.flags r.noExtra r.noComment stored).symm, rfl, ⟨r.localHeader.encode, ?_, ?_⟩, ?_⟩
  · rw [← header]
    exact xseekread_ok (by simp only [Record.asEntry, sizeofLocalHeader]; omega)
  · rw [LocalHeader.decode_encode, r.synced]
  · have copied : ¬ (decompress ∧ r.asEntry.header.compressionMethod = 8) := fun inflated =>
      stored inflated.1 inflated.2
    rw [entryData_copy Z copied]
    simp only [Record.asEntry, data]
    rw [if_pos]
    rw [dataPosition, r.noExtra, r.dataLength, r.nameLength, sizeofLocalHeader]
    by_cases empty : r.data.length = 0
    · exact .inl empty
    · exact .inr (by simp; omega)

/-- The code makes records of themselves, one after the other. -/
theorem RewritesAll.self {f : Bytes} {decompress : Bool} :
    ∀ {records : List Record} {pos : Nat} {tail : Bytes}, f.drop pos = localRegion records ++ tail →
      Placed pos records → (∀ r ∈ records, decompress → r.central.compressionMethod ≠ 8) →
      RewritesAll Z f decompress pos (records.map Record.asEntry) records
  | [], pos, _, _, _, _ => .nil pos
  | r :: rs, pos, tail, here, placed, stored => by
    obtain ⟨offset, placed⟩ := placed
    rw [List.forall_mem_cons] at stored
    rw [localRegion, List.flatMap_cons, List.append_assoc] at here
    have position : UInt32.ofNat pos = r.central.offset := by rw [← offset, UInt32.ofNat_toNat]
    have next : f.drop (pos + r.localBytes.length) = localRegion rs ++ tail := by
      rw [← List.drop_drop, here, List.drop_left]
      rfl
    refine .cons ?_ (RewritesAll.self next placed stored.2)
    rw [position]
    exact Rewrites.self Z (by rw [offset, here]) stored.1

/-- **A layout is a fixed point**, under any archive comment. -/
theorem zipadjust_of_layout {records : List Record} {footer : CentralFooter} {c : Bytes} {decompress : Bool}
    (nonempty : records ≠ []) (placed : Placed 0 records)
    (stored : ∀ r ∈ records, decompress → r.central.compressionMethod ≠ 8)
    (signature : footer.signature = magicCentralFooter) (short : c.length < 2 ^ 16)
    (small : (layout records (closeFooter footer records)).length + c.length < 2 ^ 31 + 4)
    (last : NoFooterAfter (withComment (layout records (closeFooter footer records)) c)
      ((layout records (closeFooter footer records)).length - 22)) :
    zipadjust Z (withComment (layout records (closeFooter footer records)) c) decompress =
      .ok (layout records (closeFooter footer records)) := by
  rw [layout_length] at small last
  have offset : (closeFooter footer records).centralDirectoryOffset.toNat = (localRegion records).length :=
    UInt32.toNat_ofNat_of_lt' (by simp only [UInt32.size]; omega)
  have commented := withComment_layout (c := c) (show (closeFooter footer records).signature = _ from signature) offset
    short
  rw [commented] at last ⊢
  generalize zEq : ZipFile.ofRecords records (closeFooter footer records) c signature offset short = z at last ⊢
  have entries : z.entries = records.map Record.asEntry := by rw [← zEq]; rfl
  have comment : z.comment = c := by rw [← zEq]; rfl
  have body : z.body = localRegion records := by rw [← zEq]; rfl
  have eocd : z.eocd = (localRegion records).length + (centralRegion records).length := by
    rw [ZipFile.eocd, entries, body, encodeDirectory_asEntry]
  have total := z.bytes_length
  rw [eocd, comment] at total
  have found := z.found (fun j late => last j (by omega)) (by simpa [entries] using nonempty) (by omega)
  have rewrites : RewritesAll Z z.bytes decompress 0 z.entries records := by
    rw [entries]
    exact RewritesAll.self Z (by rw [List.drop_zero, ZipFile.bytes, body]) placed stored
  have nonzero : z.footer.centralDirectoryOffset ≠ 0 := by
    obtain ⟨r, rs, rfl⟩ := List.exists_cons_of_ne_nil nonempty
    intro zero
    have start := z.offset
    rw [zero, body, localRegion, List.flatMap_cons, List.length_append, Record.localBytes_length] at start
    simp at start
    omega
  rw [zipadjust_of_directory Z found nonzero z.inside (by omega) z.drop_directory z.ends rewrites (by omega)]
  rw [← zEq]
  rfl

/-- **The store form is a fixed point modulo the archive comment.** -/
theorem zipadjust_fixed_point (fin x c : Bytes) (run : zipadjust Z fin true = .ok x)
    (declared : DeclaredAll Z fin true) (short : c.length < 2 ^ 16) (small : x.length + c.length < 2 ^ 31 + 4)
    (last : NoFooterAfter (withComment x c) (x.length - 22)) :
    zipadjust Z (withComment x c) true = .ok x := by
  obtain ⟨footer, entries, records, rest, found, directory, -, nonempty, rewrites, rfl⟩ :=
    zipadjust_inv Z run (by omega) declared
  have count : records.length = entries.length := by
    rw [← List.length_map Record.name, rewrites.names, List.length_map]
  rw [layout_length] at small
  refine zipadjust_of_layout Z ?_ (rewrites.placed Z (by omega)) (fun r member _ => rewrites.stored Z r member)
    (findFooter_some found).1 short (by rw [layout_length]; exact small) last
  rintro rfl
  exact nonempty (List.length_eq_zero_iff.mp count.symm)

set_option maxRecDepth 4000

theorem zipadjust_fixed_point_sample :
    zipadjust storedBlock.zlib (withComment pairOutput [104, 105]) true = .ok pairOutput :=
  zipadjust_fixed_point storedBlock.zlib pairZip.bytes pairOutput [104, 105] pairZip_run
    (pairZip.declaredAll _ pairZip_last (by decide) (by rw [pairZip_length]; decide) pairZip_declared)
    (by decide) (by rw [pairOutput_length]; decide) (by decide)

/-! ### A store form near 2 GiB

The `int` of the backward search starts negative when the signed file has
`2 ^ 31 + 4` bytes or more. -/

/-- One stored entry of `n` zero bytes. -/
def zeroRecord (n : Nat) (below : n < 2 ^ 32) : Record where
  localHeader := { sampleRecord.localHeader with
    sizeCompressed := UInt32.ofNat n, sizeUncompressed := UInt32.ofNat n }
  central := { sampleRecord.central with
    sizeCompressed := UInt32.ofNat n, sizeUncompressed := UInt32.ofNat n }
  name := [97]
  data := List.replicate n 0
  signature := rfl
  nameLength := rfl
  nameShort := sampleRecord.nameShort
  dataLength := by
    rw [List.length_replicate]
    exact UInt32.toNat_ofNat_of_lt' (by simpa using below)
  flags := sampleRecord.flags
  noExtra := rfl
  noComment := rfl
  synced := rfl

theorem zeroRecord_localRegion (n : Nat) (below : n < 2 ^ 32) :
    (localRegion [zeroRecord n below]).length = n + 31 := by
  simp only [localRegion, List.flatMap_cons, List.flatMap_nil, List.append_nil, Record.localBytes_length]
  simp only [zeroRecord, List.length_replicate, List.length_cons, List.length_nil]
  omega

theorem zeroRecord_centralRegion (n : Nat) (below : n < 2 ^ 32) :
    (centralRegion [zeroRecord n below]).length = 47 := by
  simp only [centralRegion, List.flatMap_cons, List.flatMap_nil, List.append_nil, Record.centralBytes_length]
  rfl

/-- An EOCD signature starts with a `P`. -/
theorem FooterAt.first {f : Bytes} {i : Nat} (here : FooterAt f i) : f[i]? = some 0x50 := by
  have first := congrArg (fun bs : Bytes => bs[0]?) here
  simp only [slice, List.getElem?_take, List.getElem?_drop] at first
  exact first

/-- Behind a footer whose other bytes are no `P`, zeros hold no EOCD signature. -/
theorem noFooter_of_zeros (front : Bytes) (m : Nat) {footer : CentralFooter}
    (plain : ∀ k, k < 22 → 0 < k → footer.encode[k]? ≠ some 0x50) :
    NoFooterAfter (front ++ (footer.encode ++ List.replicate m 0)) front.length := by
  intro j late here
  obtain ⟨k, rfl⟩ := Nat.exists_eq_add_of_lt late
  have first := here.first
  rw [List.getElem?_append_right (by omega)] at first
  by_cases inside : k + 1 < 22
  · rw [List.getElem?_append_left (by rw [CentralFooter.encode_length]; omega)] at first
    exact plain (k + 1) inside (by omega) (by rw [← first]; congr 1; omega)
  · rw [List.getElem?_append_right (by rw [CentralFooter.encode_length]; omega), List.getElem?_replicate] at first
    split at first
    · exact absurd first (by decide)
    · cases first

/-- An archive of `2 ^ 31 - 2 ^ 16 + 100` bytes. -/
def largeRecord : Record := zeroRecord (2 ^ 31 - 2 ^ 16) (by omega)

def largeFooter : CentralFooter :=
  { sampleZip.footer with
    centralDirectorySize := 47, centralDirectoryOffset := UInt32.ofNat (2 ^ 31 - 2 ^ 16 + 31), lengthComment := 0 }

theorem largeFooter_eq : closeFooter sampleZip.footer [largeRecord] = largeFooter := by
  rw [closeFooter, largeRecord, zeroRecord_localRegion, zeroRecord_centralRegion]
  rfl

def largeStore : Bytes := layout [largeRecord] largeFooter

theorem largeStore_length : largeStore.length = 2 ^ 31 - 2 ^ 16 + 100 := by
  rw [largeStore, layout_length, largeRecord, zeroRecord_localRegion, zeroRecord_centralRegion]

/-- The archive with a comment of `m` zero bytes. -/
def largeZip (m : Nat) (short : m < 2 ^ 16) : ZipFile :=
  .ofRecords [largeRecord] largeFooter (List.replicate m 0) rfl
    (by rw [largeRecord, zeroRecord_localRegion]; rfl) (by rw [List.length_replicate]; exact short)

theorem largeZip_bytes (m : Nat) (short : m < 2 ^ 16) :
    (largeZip m short).bytes = withComment largeStore (List.replicate m 0) :=
  (withComment_layout _ _ _).symm

theorem largeZip_bytes_length (m : Nat) (short : m < 2 ^ 16) :
    (largeZip m short).bytes.length = 2 ^ 31 - 2 ^ 16 + 100 + m := by
  rw [ZipFile.bytes_length, ZipFile.eocd]
  simp only [largeZip, ZipFile.ofRecords, encodeDirectory_asEntry, largeRecord, zeroRecord_localRegion,
    zeroRecord_centralRegion, List.length_replicate]

theorem largeZip_eocd (m : Nat) (short : m < 2 ^ 16) : (largeZip m short).eocd = 2 ^ 31 - 2 ^ 16 + 78 := by
  have total := (largeZip m short).bytes_length
  have comment : (largeZip m short).comment.length = m := List.length_replicate
  rw [largeZip_bytes_length] at total
  omega

/-- No byte of the commented EOCD record but its first is a `P`, when no byte of
the comment's length is one. -/
theorem largeZip_last (m : Nat) (short : m < 2 ^ 16)
    (plain : ∀ k, k < 22 → 0 < k →
      ({ largeFooter with lengthComment := UInt16.ofNat m } : CentralFooter).encode[k]? ≠ some 0x50) :
    (largeZip m short).LastFooter := by
  have here := noFooter_of_zeros (localRegion [largeRecord] ++ centralRegion [largeRecord]) m plain
  rw [List.append_assoc, List.length_append] at here
  rw [ZipFile.LastFooter, ZipFile.eocd, ZipFile.bytes]
  simp only [largeZip, ZipFile.ofRecords, encodeDirectory_asEntry, List.length_replicate]
  exact here

theorem largeZip_consistent (m : Nat) (short : m < 2 ^ 16) :
    ∀ e ∈ (largeZip m short).entries, LocalConsistent (largeZip m short).bytes e := by
  rintro e (_ | ⟨_, ⟨⟩⟩)
  have header : localHeaderAt (largeZip m short).bytes largeRecord.asEntry = largeRecord.localHeader := by
    rw [localHeaderAt, slice_at (a := largeRecord.localHeader.encode)
      (g := largeRecord.name ++ (largeRecord.data ++ (centralRegion [largeRecord] ++
        (({ largeFooter with lengthComment := UInt16.ofNat m } : CentralFooter).encode ++ List.replicate m 0))))
      ?_ (by rw [LocalHeader.encode_length]; rfl), LocalHeader.decode_encode]
    rw [ZipFile.bytes]
    simp only [largeZip, ZipFile.ofRecords, encodeDirectory_asEntry, List.length_replicate, localRegion,
      List.flatMap_cons, List.flatMap_nil, List.append_nil, Record.localBytes, List.append_assoc]
    rfl
  constructor
  · rw [header]
    rfl
  · rw [header]
    rfl

/-- The store form is rebuilt from itself, but not from a copy with a comment of
65535 bytes. -/
theorem zipadjust_refuses_large :
    (∀ e ∈ (largeZip 0 (by decide)).entries, LocalConsistent (largeZip 0 (by decide)).bytes e) ∧
    DeclaredAll storedBlock.zlib (largeZip 0 (by decide)).bytes true ∧
    zipadjust storedBlock.zlib (largeZip 0 (by decide)).bytes true = .ok largeStore ∧
    largeStore.length < 2 ^ 31 ∧ (List.replicate 65535 (0 : UInt8)).length ≤ 65535 ∧
    NoFooterAfter (withComment largeStore (List.replicate 65535 0)) (largeStore.length - 22) ∧
    zipadjust storedBlock.zlib (withComment largeStore (List.replicate 65535 0)) true ≠ .ok largeStore := by
  have last := largeZip_last 0 (by decide) (by decide)
  have lastLong := largeZip_last 65535 (by decide) (by decide)
  have total := largeZip_bytes_length 65535 (by decide)
  have length := largeStore_length
  refine ⟨largeZip_consistent _ _, ?_, ?_, by omega, Nat.le_of_eq List.length_replicate, ?_, ?_⟩
  · refine ZipFile.declaredAll _ _ last (by simp [largeZip, ZipFile.ofRecords])
      (by rw [largeZip_bytes_length]; omega) ?_
    rintro e (_ | ⟨_, ⟨⟩⟩) ⟨-, method⟩
    exact absurd method (by decide)
  · rw [largeZip_bytes, largeStore, ← largeFooter_eq]
    refine zipadjust_of_layout _ (by simp) ⟨rfl, trivial⟩ ?_ rfl (by decide) ?_ ?_
    · rintro r (_ | ⟨_, ⟨⟩⟩) -
      decide
    · rw [largeFooter_eq, ← largeStore, length]
      simp only [List.replicate_zero, List.length_nil]
      omega
    · rw [largeFooter_eq, ← largeStore, length, ← largeZip_bytes 0 (by decide)]
      intro j late
      exact last j (by rw [largeZip_eocd]; omega)
  · rw [← largeZip_bytes 65535 (by decide), length]
    intro j late
    exact lastLong j (by rw [largeZip_eocd]; omega)
  · rw [← largeZip_bytes 65535 (by decide), zipadjust, total, searchLength_large (by omega) (by omega), findFooter]
    intro run
    cases run

end OpenDelta.Zip
