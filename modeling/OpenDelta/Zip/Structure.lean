import OpenDelta.Zip.Archive
import OpenDelta.Zip.Inflation

/-!
# The structure of the output

`ZipFile` is an input: any bytes, a central directory, its EOCD record and a
comment. When no EOCD signature stands after the record's start the search
finds the record (`ZipFile.found`), and the output is a layout that is in line
with itself: `Record.InLine` for each entry, `Placed` for the offsets and
`Describes` for the new EOCD record.
-/

namespace OpenDelta.Zip
open ByteFile LittleEndian

/-- No EOCD signature stands behind position `i`. -/
def NoFooterAfter (f : Bytes) (i : Nat) : Prop := ∀ j, i < j → ¬ FooterAt f j

theorem footerAt_inside {f : Bytes} {i : Nat} (here : FooterAt f i) : i + 4 ≤ f.length := by
  have len := congrArg List.length here
  rw [slice_length, bytes32_length] at len
  omega

instance (f : Bytes) (i : Nat) : Decidable (NoFooterAfter f i) :=
  decidable_of_iff (∀ j, j < f.length → i < j → ¬ FooterAt f j)
    ⟨fun last j low here => last j (by have := footerAt_inside here; omega) low here,
      fun last j _ low => last j low⟩

/-- A ZIP: what precedes the central directory, the directory, its EOCD record
and the archive comment. -/
structure ZipFile where
  body : Bytes
  entries : List DirEntry
  footer : CentralFooter
  comment : Bytes
  signature : footer.signature = magicCentralFooter
  offset : footer.centralDirectoryOffset.toNat = body.length
  commentLength : footer.lengthComment.toNat = comment.length

namespace ZipFile

/-- The EOCD record gives the directory's entry count. -/
structure Described (z : ZipFile) : Prop where
  countThisDisk : z.footer.centralDirectoryEntriesThisDisk.toNat = z.entries.length
  countTotal : z.footer.centralDirectoryEntriesTotal.toNat = z.entries.length

def bytes (z : ZipFile) : Bytes :=
  z.body ++ (encodeDirectory z.entries ++ (z.footer.encode ++ z.comment))

/-- Where the EOCD record starts. -/
def eocd (z : ZipFile) : Nat := z.body.length + (encodeDirectory z.entries).length

/-- No EOCD signature stands after the start of the EOCD record. -/
def LastFooter (z : ZipFile) : Prop := NoFooterAfter z.bytes z.eocd

instance (z : ZipFile) : Decidable z.LastFooter := inferInstanceAs (Decidable (NoFooterAfter z.bytes z.eocd))

theorem bytes_length (z : ZipFile) : z.bytes.length = z.eocd + 22 + z.comment.length := by
  simp only [bytes, eocd, List.length_append, CentralFooter.encode_length]
  omega

theorem drop_eocd (z : ZipFile) : z.bytes.drop z.eocd = z.footer.encode ++ z.comment := by
  rw [bytes, eocd, ← List.append_assoc]
  exact List.drop_left' (by rw [List.length_append])

theorem drop_directory (z : ZipFile) :
    z.bytes.drop z.footer.centralDirectoryOffset.toNat =
      encodeDirectory z.entries ++ (z.footer.encode ++ z.comment) := by
  rw [z.offset, bytes, List.drop_left]

theorem ends (z : ZipFile) : EndsDirectory (z.footer.encode ++ z.comment) := by
  refine ⟨by simp only [List.length_append, CentralFooter.encode_length]; omega, ?_⟩
  rw [CentralFooter.encode, List.append_assoc, List.take_left' (bytes32_length _), word32_bytes32, z.signature]
  decide

theorem inside (z : ZipFile) : z.footer.centralDirectoryOffset.toNat ≤ z.bytes.length := by
  rw [z.offset, bytes, List.length_append]
  omega

/-- The search finds the EOCD record of a ZIP that has an entry. -/
theorem found (z : ZipFile) (last : z.LastFooter) (nonempty : z.entries ≠ [])
    (small : z.bytes.length < 2 ^ 31 + 4) :
    findFooter z.bytes (searchLength (UInt32.ofNat z.bytes.length)) = .ok (some z.footer) := by
  have total := z.bytes_length
  obtain ⟨e, es, entries⟩ := List.exists_cons_of_ne_nil nonempty
  have directory := z.drop_directory
  rw [entries, encodeDirectory, List.flatMap_cons, List.append_assoc] at directory
  have len := congrArg List.length directory
  simp only [List.length_drop, List.length_append, DirEntry.encode_length] at len
  rw [searchLength_eq (by omega) small]
  refine findFooter_last (i := z.eocd) (by omega) (by omega) (fun j low _ => last j low) ?_ z.signature
    (by omega) ?_
  · exact slice_at z.drop_eocd (by simp)
  · rw [slice_at (a := bytes32 e.header.signature)
      (by rw [directory, DirEntry.encode, CentralHeader.encode]; simp only [List.append_assoc]; rfl) (by simp),
      word32_bytes32, e.signature]

theorem directoryOf_eq (z : ZipFile) (below : z.bytes.length < 2 ^ 32) :
    directoryOf z.bytes z.footer = encodeDirectory z.entries ++ (z.footer.encode ++ z.comment) := by
  have size : (UInt32.ofNat z.bytes.length).toNat = z.bytes.length :=
    UInt32.toNat_ofNat_of_lt' (by simpa using below)
  rw [directoryOf, slice, UInt32.toNat_sub_of_le _ _ (by rw [UInt32.le_iff_toNat_le, size]; exact z.inside),
    size, z.drop_directory, List.take_of_length_le]
  exact Nat.le_of_eq (by rw [← z.drop_directory, List.length_drop])

end ZipFile

/-! ## The output is in line with itself -/

/-- The local header of an output entry agrees with its central header, and
neither announces a deflated stream that was to be inflated. -/
structure Record.InLine (r : Record) (decompress : Bool) : Prop where
  localSignature : r.localHeader.signature = magicLocalHeader
  nameLength : r.localHeader.lengthFilename = r.central.lengthFilename
  method : r.localHeader.compressionMethod = r.central.compressionMethod
  flags : r.localHeader.flags = r.central.flags
  crc32 : r.localHeader.crc32 = r.central.crc32
  sizeCompressed : r.localHeader.sizeCompressed = r.central.sizeCompressed
  sizeUncompressed : r.localHeader.sizeUncompressed = r.central.sizeUncompressed
  noExtra : r.localHeader.lengthExtra = 0
  stored : decompress → r.central.compressionMethod ≠ 8

/-- An EOCD record describes the directory of these records. -/
structure Describes (footer : CentralFooter) (records : List Record) : Prop where
  signature : footer.signature = magicCentralFooter
  offset : footer.centralDirectoryOffset.toNat = (localRegion records).length
  size : footer.centralDirectorySize.toNat = (centralRegion records).length
  countThisDisk : footer.centralDirectoryEntriesThisDisk.toNat = records.length
  countTotal : footer.centralDirectoryEntriesTotal.toNat = records.length
  noComment : footer.lengthComment = 0

variable (Z : Zlib)

/-- The local header the code reads for an entry. -/
def localHeaderAt (fin : Bytes) (e : DirEntry) : LocalHeader :=
  LocalHeader.decode (slice fin e.header.offset.toNat sizeofLocalHeader)

/-- The entry's local header carries the local signature and the name's length. -/
structure LocalConsistent (fin : Bytes) (e : DirEntry) : Prop where
  signature : (localHeaderAt fin e).signature = magicLocalHeader
  nameLength : (localHeaderAt fin e).lengthFilename = e.header.lengthFilename

theorem rewriteCentral_stored (o : UInt32) (h : CentralHeader) :
    (rewriteCentral true o h).compressionMethod ≠ 8 := by
  by_cases inflated : (true : Bool) ∧ h.compressionMethod = 8
  · rw [(rewriteCentral_inflated inflated).1]
    decide
  · rw [(rewriteCentral_copied inflated).1]
    exact fun method => inflated ⟨rfl, method⟩

theorem Rewrites.inLine {fin : Bytes} {decompress : Bool} {o : UInt32} {e : DirEntry} {r : Record}
    (rewrites : Rewrites Z fin decompress o e r) (consistent : LocalConsistent fin e) :
    r.InLine decompress := by
  obtain ⟨l, localRead, localEq⟩ := rewrites.localHeader
  obtain ⟨rfl, -⟩ := xseekread_inv localRead
  constructor
  case localSignature => rw [localEq]; exact consistent.signature
  case nameLength =>
    rw [localEq, rewrites.central, rewriteCentral_lengthFilename]
    exact consistent.nameLength
  case stored =>
    rintro rfl
    rw [rewrites.central]
    exact rewriteCentral_stored _ _
  all_goals rw [localEq]; rfl

/-- What holds of every entry holds of every record. -/
theorem RewritesAll.inLine {fin : Bytes} {decompress : Bool} {pos : Nat} {entries : List DirEntry}
    {records : List Record} (rewrites : RewritesAll Z fin decompress pos entries records)
    (consistent : ∀ e ∈ entries, LocalConsistent fin e) : ∀ r ∈ records, r.InLine decompress := by
  induction rewrites with
  | nil => simp
  | cons first _ ih =>
    rw [List.forall_mem_cons] at consistent ⊢
    exact ⟨first.inLine Z consistent.1, ih consistent.2⟩

theorem RewritesAll.stored {fin : Bytes} {pos : Nat} {entries : List DirEntry} {records : List Record}
    (rewrites : RewritesAll Z fin true pos entries records) :
    ∀ r ∈ records, r.central.compressionMethod ≠ 8 := by
  induction rewrites with
  | nil => simp
  | cons first _ ih =>
    rw [List.forall_mem_cons]
    exact ⟨first.central ▸ rewriteCentral_stored _ _, ih⟩

theorem RewritesAll.names {fin : Bytes} {decompress : Bool} {pos : Nat} {entries : List DirEntry}
    {records : List Record} (rewrites : RewritesAll Z fin decompress pos entries records) :
    records.map Record.name = entries.map DirEntry.name := by
  induction rewrites with
  | nil => rfl
  | cons first _ ih => rw [List.map_cons, List.map_cons, ih, first.name]

theorem RewritesAll.placed {fin : Bytes} {decompress : Bool} {pos : Nat} {entries : List DirEntry}
    {records : List Record} (rewrites : RewritesAll Z fin decompress pos entries records)
    (fits : pos + (localRegion records).length < 2 ^ 32) : Placed pos records := by
  induction rewrites with
  | nil => trivial
  | @cons pos e es r rs first _ ih =>
    simp only [localRegion, List.flatMap_cons, List.length_append] at fits
    refine ⟨?_, ih (by simp only [localRegion]; omega)⟩
    rw [first.central, rewriteCentral_offset]
    exact UInt32.toNat_ofNat_of_lt' (by simp only [UInt32.size]; omega)

theorem layout_length (records : List Record) (footer : CentralFooter) :
    (layout records footer).length = (localRegion records).length + (centralRegion records).length + 22 := by
  simp only [layout, List.length_append, CentralFooter.encode_length]
  omega

/-- The new EOCD record describes the new directory. -/
theorem closeFooter_describes {footer : CentralFooter} {records : List Record}
    (signature : footer.signature = magicCentralFooter)
    (countThisDisk : footer.centralDirectoryEntriesThisDisk.toNat = records.length)
    (countTotal : footer.centralDirectoryEntriesTotal.toNat = records.length)
    (fits : (localRegion records).length + (centralRegion records).length < 2 ^ 32) :
    Describes (closeFooter footer records) records where
  signature := signature
  offset := UInt32.toNat_ofNat_of_lt' (by simp only [UInt32.size]; omega)
  size := UInt32.toNat_ofNat_of_lt' (by simp only [UInt32.size]; omega)
  countThisDisk := countThisDisk
  countTotal := countTotal
  noComment := rfl

/-- The directory the code visits is the ZIP's. -/
theorem ZipFile.declaredAll (z : ZipFile) {decompress : Bool} (last : z.LastFooter) (nonempty : z.entries ≠ [])
    (small : z.bytes.length < 2 ^ 31 + 4)
    (declared : ∀ e ∈ z.entries, Declared Z z.bytes decompress e.header) :
    DeclaredAll Z z.bytes decompress := by
  intro footer entries rest found directory e member
  rw [z.found last nonempty small] at found
  cases found
  rw [z.directoryOf_eq (by omega)] at directory
  exact declared e ((directory_initial z.ends directory.symm).subset member)

/-- A ZIP without entries, and without another EOCD record before its own, is
refused. -/
theorem ZipFile.refused_of_empty (z : ZipFile) (decompress : Bool) (last : z.LastFooter)
    (empty : z.entries = []) (alone : ∀ j, j < z.eocd → ¬ FooterAt z.bytes j)
    (small : z.bytes.length < 2 ^ 31 + 4) : zipadjust Z z.bytes decompress = .error .failed := by
  have total := z.bytes_length
  have directory := z.drop_directory
  rw [empty, encodeDirectory, List.flatMap_nil, List.nil_append] at directory
  have footerAt : slice z.bytes z.eocd 22 = z.footer.encode := slice_at z.drop_eocd (by simp)
  have here : word32 (slice z.bytes z.eocd 4) = magicCentralFooter := by
    have front : slice z.bytes z.eocd 4 = (slice z.bytes z.eocd 22).take 4 := by simp [slice, List.take_take]
    rw [front, footerAt, CentralFooter.encode, List.take_left' (bytes32_length _), word32_bytes32, z.signature]
  have before : findFooter z.bytes z.eocd = .ok none := by
    rw [findFooter_skip (Nat.zero_le _) (by omega) fun j _ high => alone j high, findFooter]
  rw [zipadjust, searchLength_eq (by omega) small,
    findFooter_skip (by omega : z.eocd + 1 ≤ _) (by omega) fun j low _ => last j low, findFooter,
    xseekread_ok (by omega)]
  simp only [bind, Except.bind]
  rw [if_pos here, sizeofCentralFooter, xseekread_ok (by omega)]
  simp only [footerAt, CentralFooter.decode_encode]
  by_cases readable : z.footer.centralDirectoryOffset.toNat + sizeofCentralHeader ≤ z.bytes.length
  · rw [xseekread_ok readable]
    simp only
    rw [if_neg, before]
    rw [header_signature, slice, directory, List.take_take]
    exact z.ends.other
  · rw [xseekread, if_neg]
    rw [slice_length, sizeofCentralHeader]
    rw [sizeofCentralHeader] at readable
    omega

/-- `x` consists of these records and this EOCD record, one record per entry of
`z`: local records back to back in directory order, then the central headers
with their names, then the EOCD record, all in line with each other. -/
structure Rebuilt (z : ZipFile) (decompress : Bool) (x : Bytes) (records : List Record)
    (footer : CentralFooter) : Prop where
  file : x = layout records footer
  names : records.map Record.name = z.entries.map DirEntry.name
  placed : Placed 0 records
  inLine : ∀ r ∈ records, r.InLine decompress
  described : Describes footer records

/-- **Structural correctness.** A successful run on a ZIP, which has an entry or
holds no EOCD record before its own, rebuilds it. -/
theorem zipadjust_structure (z : ZipFile) (decompress : Bool) (x : Bytes)
    (consistent : ∀ e ∈ z.entries, LocalConsistent z.bytes e) (described : z.Described)
    (last : z.LastFooter) (alone : z.entries = [] → ∀ j, j < z.eocd → ¬ FooterAt z.bytes j)
    (small : z.bytes.length < 2 ^ 31) (smallOut : x.length < 2 ^ 31)
    (run : zipadjust Z z.bytes decompress = .ok x)
    (declared : ∀ e ∈ z.entries, Declared Z z.bytes decompress e.header) :
    ∃ records footer, Rebuilt z decompress x records footer := by
  by_cases empty : z.entries = []
  · rw [z.refused_of_empty Z decompress last empty (alone empty) (by omega)] at run
    cases run
  obtain ⟨footer, entries, records, rest, found, directory, ends, -, rewrites, rfl⟩ :=
    zipadjust_inv Z run (by omega) (z.declaredAll Z last empty (by omega) declared)
  rw [z.found last empty (by omega)] at found
  cases found
  rw [z.directoryOf_eq (by omega)] at directory
  obtain rfl := directory_unique z.ends ends directory
  have count : records.length = z.entries.length := by
    rw [← List.length_map Record.name, rewrites.names, List.length_map]
  rw [layout_length] at smallOut
  exact ⟨records, _, rfl, rewrites.names, rewrites.placed Z (by omega), rewrites.inLine Z consistent,
    closeFooter_describes z.signature (by rw [count, described.countThisDisk])
      (by rw [count, described.countTotal]) (by omega)⟩

/-! ### A ZIP with one deflated entry -/

/-- The entry `a`, a stored block of one byte. -/
def sampleEntry : DirEntry where
  header :=
    { signature := magicCentralHeader, versionMade := 20, versionNeeded := 20, flags := 8, compressionMethod := 8
      lastModifiedTime := 0, lastModifiedDate := 0, crc32 := 0x9DB42487, sizeCompressed := 6, sizeUncompressed := 1
      lengthFilename := 1, lengthExtra := 0, lengthComment := 0, diskStart := 0, attrInternal := 0
      attrExternal := 0, offset := 0 }
  name := [97]
  extra := []
  comment := []
  signature := rfl
  nameLength := rfl
  extraLength := rfl
  commentLength := rfl

/-- Its local header, which leaves CRC and sizes to a data descriptor. -/
def sampleLocal : LocalHeader :=
  { signature := magicLocalHeader, extractVersion := 20, flags := 8, compressionMethod := 8, lastModifiedTime := 0
    lastModifiedDate := 0, crc32 := 0, sizeCompressed := 0, sizeUncompressed := 0, lengthFilename := 1
    lengthExtra := 0 }

def sampleZip : ZipFile where
  body := sampleLocal.encode ++ ([97] ++ ([1, 1, 0, 254, 255, 42] ++
    -- the data descriptor
    (bytes32 sampleEntry.header.crc32 ++ (bytes32 6 ++ bytes32 1))))
  entries := [sampleEntry]
  footer :=
    { signature := magicCentralFooter, diskNumber := 0, diskNumberCentralDirectory := 0
      centralDirectoryEntriesThisDisk := 1, centralDirectoryEntriesTotal := 1, centralDirectorySize := 47
      centralDirectoryOffset := 49, lengthComment := 2 }
  comment := [104, 105]
  signature := rfl
  offset := by decide
  commentLength := rfl

/-- What becomes of the entry with `decompress` on. -/
def sampleRecord : Record where
  localHeader := rewriteLocal (rewriteCentral true 0 sampleEntry.header) sampleLocal
  central := rewriteCentral true 0 sampleEntry.header
  name := [97]
  data := [42]
  signature := rfl
  nameLength := rfl
  nameShort := by decide
  dataLength := rfl
  flags := by decide
  noExtra := rfl
  noComment := rfl
  synced := rfl

def sampleOutput : Bytes := layout [sampleRecord] (closeFooter sampleZip.footer [sampleRecord])

set_option maxRecDepth 4000

theorem sampleZip_run : zipadjust storedBlock.zlib sampleZip.bytes true = .ok sampleOutput := by
  decide

theorem sampleZip_last : sampleZip.LastFooter := by decide

theorem sampleZip_declared :
    ∀ e ∈ sampleZip.entries, Declared storedBlock.zlib sampleZip.bytes true e.header := by
  rintro e (_ | ⟨_, ⟨⟩⟩) - w run
  have data : entryData storedBlock.zlib sampleZip.bytes true sampleEntry.header = .ok [42] := by decide
  rw [data] at run
  cases run
  rfl

/-! ### A second entry, with extra fields -/

/-- The stored entry `b`, with an extra field of four bytes and a comment. -/
def extraEntry : DirEntry where
  header :=
    { signature := magicCentralHeader, versionMade := 20, versionNeeded := 20, flags := 0, compressionMethod := 0
      lastModifiedTime := 0, lastModifiedDate := 0, crc32 := 0x55bc801d, sizeCompressed := 3, sizeUncompressed := 3
      lengthFilename := 1, lengthExtra := 4, lengthComment := 1, diskStart := 0, attrInternal := 0
      attrExternal := 0, offset := 49 }
  name := [98]
  extra := [0xfe, 0xca, 0, 0]
  comment := [33]
  signature := rfl
  nameLength := rfl
  extraLength := rfl
  commentLength := rfl

/-- Its local header; the extra field there is as long. -/
def extraLocal : LocalHeader :=
  { signature := magicLocalHeader, extractVersion := 20, flags := 0, compressionMethod := 0, lastModifiedTime := 0
    lastModifiedDate := 0, crc32 := 0x55bc801d, sizeCompressed := 3, sizeUncompressed := 3, lengthFilename := 1
    lengthExtra := 4 }

def pairZip : ZipFile where
  body := sampleZip.body ++ (extraLocal.encode ++ ([98] ++ ([0xfe, 0xca, 0, 0] ++ [1, 2, 3])))
  entries := [sampleEntry, extraEntry]
  footer :=
    { sampleZip.footer with
      centralDirectoryEntriesThisDisk := 2, centralDirectoryEntriesTotal := 2, centralDirectorySize := 99
      centralDirectoryOffset := 87 }
  comment := [104, 105]
  signature := rfl
  offset := by decide
  commentLength := rfl

/-- What becomes of the second entry. -/
def extraRecord : Record where
  localHeader := rewriteLocal (rewriteCentral true 32 extraEntry.header) extraLocal
  central := rewriteCentral true 32 extraEntry.header
  name := [98]
  data := [1, 2, 3]
  signature := rfl
  nameLength := rfl
  nameShort := by decide
  dataLength := rfl
  flags := by decide
  noExtra := rfl
  noComment := rfl
  synced := rfl

def pairOutput : Bytes :=
  layout [sampleRecord, extraRecord] (closeFooter pairZip.footer [sampleRecord, extraRecord])

theorem pairZip_length : pairZip.bytes.length = 210 := by
  rw [ZipFile.bytes_length]
  rfl

theorem pairOutput_length : pairOutput.length = 182 := by
  rw [pairOutput, layout_length]
  rfl

theorem pairZip_run : zipadjust storedBlock.zlib pairZip.bytes true = .ok pairOutput := by
  decide +kernel

theorem pairZip_last : pairZip.LastFooter := by decide +kernel

theorem pairZip_consistent : ∀ e ∈ pairZip.entries, LocalConsistent pairZip.bytes e := by
  rintro e (_ | ⟨_, _ | ⟨_, ⟨⟩⟩⟩)
  · constructor <;> decide
  · constructor <;> decide

theorem pairZip_inflated : entryData storedBlock.zlib pairZip.bytes true sampleEntry.header = .ok [42] := by
  decide

theorem pairZip_declared : ∀ e ∈ pairZip.entries, Declared storedBlock.zlib pairZip.bytes true e.header := by
  rintro e (_ | ⟨_, _ | ⟨_, ⟨⟩⟩⟩) inflated w run
  · rw [pairZip_inflated] at run
    cases run
    rfl
  · cases inflated.2

theorem zipadjust_structure_sample :
    ∃ records footer, Rebuilt pairZip true pairOutput records footer :=
  zipadjust_structure storedBlock.zlib pairZip true pairOutput pairZip_consistent
    ⟨rfl, rfl⟩ pairZip_last nofun (by rw [pairZip_length]; decide) (by rw [pairOutput_length]; decide) pairZip_run
    pairZip_declared

/-- A ZIP without entries behind another ZIP, with a comment long enough to read
a central header at its offset. -/
def emptyBehindZip : ZipFile where
  body := sampleOutput
  entries := []
  footer :=
    { signature := magicCentralFooter, diskNumber := 0, diskNumberCentralDirectory := 0
      centralDirectoryEntriesThisDisk := 0, centralDirectoryEntriesTotal := 0, centralDirectorySize := 0
      centralDirectoryOffset := 101, lengthComment := 24 }
  comment := List.replicate 24 0
  signature := rfl
  offset := by decide
  commentLength := rfl

/-- `zipadjust` rebuilds the other ZIP instead: the search passes the EOCD record
of a directory without entries. -/
theorem zipadjust_passes_empty :
    (∀ e ∈ emptyBehindZip.entries, LocalConsistent emptyBehindZip.bytes e ∧
      Declared storedBlock.zlib emptyBehindZip.bytes true e.header) ∧
    emptyBehindZip.Described ∧ emptyBehindZip.LastFooter ∧
    emptyBehindZip.bytes.length < 2 ^ 31 ∧ sampleOutput.length < 2 ^ 31 ∧
    zipadjust storedBlock.zlib emptyBehindZip.bytes true = .ok sampleOutput ∧
    ¬ ∃ records footer, Rebuilt emptyBehindZip true sampleOutput records footer := by
  refine ⟨nofun, ⟨rfl, rfl⟩, by decide +kernel, by decide +kernel, by decide +kernel, by decide +kernel, ?_⟩
  rintro ⟨records, footer, rebuilt⟩
  obtain rfl : records = [] := List.map_eq_nil_iff.mp rebuilt.names
  have len := congrArg List.length rebuilt.file
  rw [layout_length] at len
  exact absurd len (by decide)

end OpenDelta.Zip
