import Mathlib.Algebra.GroupWithZero.Nat
import OpenDelta.Zip.FixedPoint

/-!
# What can be extracted from the output

`memberContent` reads a member the way the format says: behind the local header
and the local name and extra field, whose lengths the local header gives.
`zipadjust` looks behind an extra field of the central header's length;
`codeContent` is what stands there. The members survive exactly when the two
agree (`preserved_of_content`, `content_of_preserved`).
-/

namespace OpenDelta.Zip
open ByteFile LittleEndian

/-- The content of a member's data: itself when stored, its expansion when deflated. -/
def extract (std : Inflation) (method : UInt16) (data : Bytes) : Option Bytes :=
  if method = 0 then some data
  else if method = 8 then (std.run data).map Prod.fst
  else none

/-- The `size` bytes at `pos` as the data of a member. -/
def extractAt (std : Inflation) (f : Bytes) (pos : Nat) (h : CentralHeader) : Option Bytes :=
  if (slice f pos h.sizeCompressed.toNat).length = h.sizeCompressed.toNat then
    extract std h.compressionMethod (slice f pos h.sizeCompressed.toNat)
  else none

/-- Where the format puts a member's data. -/
def memberPosition (f : Bytes) (h : CentralHeader) : Nat :=
  let l := LocalHeader.decode (slice f h.offset.toNat sizeofLocalHeader)
  h.offset.toNat + sizeofLocalHeader + l.lengthFilename.toNat + l.lengthExtra.toNat

def memberContent (std : Inflation) (f : Bytes) (h : CentralHeader) : Option Bytes :=
  extractAt std f (memberPosition f h) h

/-- The members of a ZIP, by name and content. -/
def ZipFile.members (std : Inflation) (z : ZipFile) : List (Bytes × Option Bytes) :=
  z.entries.map fun e => (e.name, memberContent std z.bytes e.header)

/-- What the code's data position leads to: a stream that it inflates, or the
window that it copies. -/
def codeContent (std : Inflation) (fin : Bytes) (decompress : Bool) (h : CentralHeader) : Option Bytes :=
  if decompress ∧ h.compressionMethod = 8 then (std.run (fin.drop (dataPosition h))).map Prod.fst
  else extractAt std fin (dataPosition h) h

/-- A stored or deflated, unencrypted member in line with its local header. The
local extra field may have any length. -/
structure WellFormed (std : Inflation) (z : ZipFile) (e : DirEntry) : Prop where
  consistent : LocalConsistent z.bytes e
  localName : slice z.bytes (e.header.offset.toNat + sizeofLocalHeader) e.name.length = e.name
  nameShort : e.name.length < 1024
  unencrypted : e.header.flags &&& 1 = 0
  inside : memberPosition z.bytes e.header + e.header.sizeCompressed.toNat ≤ z.body.length
  content : e.header.compressionMethod = 0 ∧ e.header.sizeUncompressed = e.header.sizeCompressed ∨
    e.header.compressionMethod = 8 ∧
      ∃ w, std.run (slice z.bytes (memberPosition z.bytes e.header) e.header.sizeCompressed.toNat) =
        some (w, e.header.sizeCompressed.toNat) ∧ w.length = e.header.sizeUncompressed.toNat

/-- The size of the output the headers announce. -/
def ZipFile.outputSize (z : ZipFile) (decompress : Bool) : Nat :=
  (z.entries.map fun e =>
    30 + e.name.length + (if decompress ∧ e.header.compressionMethod = 8 then e.header.sizeUncompressed
      else e.header.sizeCompressed).toNat + (46 + e.name.length)).sum + 22

variable (Z : Zlib) (std : Inflation)

/-- `zipadjust` succeeds, and its output is a ZIP with the same members. -/
def Preserved (z : ZipFile) (decompress : Bool) : Prop :=
  ∃ z' : ZipFile, z'.comment = [] ∧ zipadjust Z z.bytes decompress = .ok z'.bytes ∧
    z'.members std = z.members std

/-! ## Reading a layout -/

/-- A member of a layout is its record's data. -/
theorem memberContent_record {f tail : Bytes} {r : Record} {decompress : Bool}
    (here : f.drop r.central.offset.toNat = r.localBytes ++ tail) (inLine : r.InLine decompress) :
    memberContent std f r.central = extract std r.central.compressionMethod r.data := by
  have header : slice f r.central.offset.toNat 30 = r.localHeader.encode :=
    slice_at (by rw [here, Record.localBytes, List.append_assoc]) (by simp)
  have position : memberPosition f r.central = r.central.offset.toNat + (30 + r.name.length) := by
    rw [memberPosition, sizeofLocalHeader, header, LocalHeader.decode_encode, inLine.nameLength, inLine.noExtra,
      r.nameLength, UInt16.toNat_zero, Nat.add_zero, Nat.add_assoc]
  have data : slice f (memberPosition f r.central) r.central.sizeCompressed.toNat = r.data := by
    refine slice_at (g := tail) ?_ r.dataLength.symm
    have front : (r.localHeader.encode ++ r.name).length = 30 + r.name.length := by simp
    rw [position, ← front, ← List.drop_drop, here, Record.localBytes, ← List.append_assoc, List.append_assoc,
      List.drop_left]
  rw [memberContent, extractAt, data, if_pos r.dataLength.symm]

/-- A layout's members are its records' data, in order. -/
theorem members_of_placed {f : Bytes} {decompress : Bool} :
    ∀ {records : List Record} {pos : Nat} {tail : Bytes}, f.drop pos = localRegion records ++ tail →
      Placed pos records → (∀ r ∈ records, r.InLine decompress) →
      records.map (fun r => (r.name, memberContent std f r.central)) =
        records.map fun r => (r.name, extract std r.central.compressionMethod r.data)
  | [], _, _, _, _, _ => rfl
  | r :: rs, pos, tail, here, placed, inLine => by
    obtain ⟨offset, placed⟩ := placed
    rw [List.forall_mem_cons] at inLine
    rw [localRegion, List.flatMap_cons, List.append_assoc] at here
    have next : f.drop (pos + r.localBytes.length) = localRegion rs ++ tail := by
      rw [← List.drop_drop, here, List.drop_left]
      rfl
    rw [List.map_cons, List.map_cons, members_of_placed next placed inLine.2,
      memberContent_record std (by rw [offset, here]) inLine.1]

/-- A ZIP without comment is read in one way only. -/
theorem ZipFile.entries_of_layout {z : ZipFile} {records : List Record} {footer : CentralFooter}
    (noComment : z.comment = []) (file : z.bytes = layout records footer)
    (offset : footer.centralDirectoryOffset.toNat = (localRegion records).length) :
    z.entries = records.map Record.asEntry := by
  have len := congrArg List.length file
  have total := z.bytes_length
  rw [noComment, List.length_nil] at total
  rw [layout_length] at len
  have footerEq : z.footer.encode = footer.encode := by
    have last := z.drop_eocd
    rw [noComment, List.append_nil] at last
    rw [← last, file, layout, ← List.append_assoc]
    exact List.drop_left' (by rw [List.length_append]; omega)
  have same : z.footer = footer := by
    rw [← CentralFooter.decode_encode z.footer, footerEq, CentralFooter.decode_encode]
  have directory := z.drop_directory
  rw [noComment, List.append_nil, same, offset, file, layout, List.drop_left, ← encodeDirectory_asEntry] at directory
  have ends := z.ends
  rw [noComment, List.append_nil, same] at ends
  exact directory_unique ends ends directory.symm

/-! ## What the code makes of a member -/

variable {Z std}

/-- The record of an entry holds what the code's data position leads to. -/
theorem Rewrites.content (inflates : Z.Inflates std) {fin : Bytes} {decompress : Bool} {o : UInt32} {e : DirEntry}
    {r : Record} (rewrites : Rewrites Z fin decompress o e r) :
    extract std r.central.compressionMethod r.data = codeContent std fin decompress e.header := by
  have data := rewrites.data
  by_cases inflated : decompress ∧ e.header.compressionMethod = 8
  · rw [entryData, writeData, if_pos inflated, xdecompress_eq inflates] at data
    rw [rewrites.central, (rewriteCentral_inflated inflated).1, codeContent, if_pos inflated]
    cases run : std.run (fin.drop (dataPosition e.header)) with
    | none =>
      rw [run] at data
      cases data
    | some result =>
      rw [run] at data
      rw [← Except.ok.inj data]
      rfl
  · rw [entryData_copy Z inflated] at data
    rw [rewrites.central, (rewriteCentral_copied inflated).1, codeContent, if_neg inflated, extractAt]
    split at data
    · rw [← Except.ok.inj data, if_pos]
      rw [slice_length]
      omega
    · cases data

/-- Where the code finds a content, its data step succeeds. -/
theorem entryData_of_content (inflates : Z.Inflates std) {fin w : Bytes} {decompress : Bool} {h : CentralHeader}
    (content : codeContent std fin decompress h = some w) :
    ∃ data, entryData Z fin decompress h = .ok data ∧ (decompress ∧ h.compressionMethod = 8 → data = w) := by
  by_cases inflated : decompress ∧ h.compressionMethod = 8
  · rw [codeContent, if_pos inflated, Option.map_eq_some_iff] at content
    obtain ⟨⟨w', n⟩, run, rfl⟩ := content
    refine ⟨w', ?_, fun _ => rfl⟩
    rw [entryData, writeData, if_pos inflated, xdecompress_eq inflates, run]
  · rw [codeContent, if_neg inflated, extractAt] at content
    split at content
    · rename_i full
      rw [slice_length] at full
      rw [entryData_copy Z inflated, if_pos (by omega)]
      exact ⟨_, rfl, fun inflated' => absurd inflated' inflated⟩
    · cases content

/-- A well-formed member has a content of the declared length. -/
theorem WellFormed.memberContent {z : ZipFile} {e : DirEntry} (wellFormed : WellFormed std z e) :
    ∃ w, memberContent std z.bytes e.header = some w ∧ w.length = e.header.sizeUncompressed.toNat := by
  have inside := wellFormed.inside
  have total := z.bytes_length
  have full : (slice z.bytes (memberPosition z.bytes e.header) e.header.sizeCompressed.toNat).length =
      e.header.sizeCompressed.toNat := by
    rw [slice_length]
    simp only [ZipFile.eocd] at total
    omega
  rw [Zip.memberContent, extractAt, if_pos full, extract]
  rcases wellFormed.content with ⟨method, size⟩ | ⟨method, w, run, size⟩
  · rw [if_pos method]
    exact ⟨_, rfl, by rw [full, size]⟩
  · rw [if_neg (by rw [method]; decide), if_pos method, run]
    exact ⟨w, rfl, size⟩

/-- With extra fields of equal lengths the code looks in the right place. -/
theorem WellFormed.codeContent_of_equal {z : ZipFile} {e : DirEntry} (wellFormed : WellFormed std z e)
    (decompress : Bool) (equal : (localHeaderAt z.bytes e).lengthExtra = e.header.lengthExtra) :
    codeContent std z.bytes decompress e.header = Zip.memberContent std z.bytes e.header := by
  have position : memberPosition z.bytes e.header = dataPosition e.header := by
    have name := wellFormed.consistent.nameLength
    rw [localHeaderAt] at equal name
    rw [memberPosition, dataPosition, equal, name]
  by_cases inflated : decompress ∧ e.header.compressionMethod = 8
  · rcases wellFormed.content with ⟨method, -⟩ | ⟨method, w, run, size⟩
    · exact absurd (inflated.2.symm.trans method) (by decide)
    · have inside := wellFormed.inside
      have total := z.bytes_length
      simp only [ZipFile.eocd] at total
      rw [codeContent, if_pos inflated, Zip.memberContent, extractAt, if_pos (by rw [slice_length]; omega), extract,
        if_neg (by rw [method]; decide), if_pos method, run, ← position]
      rw [slice] at run
      rw [std.run_of_take run]
  · rw [codeContent, if_neg inflated, Zip.memberContent, position]

/-! ## Whole archives -/

/-- Every entry whose data the code can read becomes a record. -/
theorem RewritesAll.exists {fin : Bytes} {decompress : Bool} :
    ∀ {entries : List DirEntry} (pos : Nat), (∀ e ∈ entries, e.name.length < 1024 ∧
        e.header.offset.toNat + sizeofLocalHeader ≤ fin.length ∧
        Declared Z fin decompress e.header ∧ ∃ w, entryData Z fin decompress e.header = .ok w) →
      ∃ records, RewritesAll Z fin decompress pos entries records
  | [], pos, _ => ⟨[], .nil pos⟩
  | e :: es, pos, ready => by
    rw [List.forall_mem_cons] at ready
    obtain ⟨⟨nameShort, inside, declared, w, data⟩, ready⟩ := ready
    obtain ⟨r, first, -⟩ := Rewrites.exists Z (UInt32.ofNat pos) nameShort (xseekread_ok inside) data declared
    obtain ⟨rs, others⟩ := RewritesAll.exists (pos + r.localBytes.length) ready
    exact ⟨r :: rs, .cons first others⟩

/-- The records take the room the headers announce. -/
theorem RewritesAll.outputSize {fin : Bytes} {decompress : Bool} {pos : Nat} {entries : List DirEntry}
    {records : List Record} (rewrites : RewritesAll Z fin decompress pos entries records) :
    (localRegion records).length + (centralRegion records).length =
      (entries.map fun e =>
        30 + e.name.length + (if decompress ∧ e.header.compressionMethod = 8 then e.header.sizeUncompressed
          else e.header.sizeCompressed).toNat + (46 + e.name.length)).sum := by
  induction rewrites with
  | nil => rfl
  | @cons pos e es r rs first _ ih =>
    have data : r.data.length = (if decompress ∧ e.header.compressionMethod = 8 then e.header.sizeUncompressed
        else e.header.sizeCompressed).toNat := by
      rw [← r.dataLength, first.central]
      by_cases inflated : decompress ∧ e.header.compressionMethod = 8
      · rw [if_pos inflated, (rewriteCentral_inflated inflated).2]
      · rw [if_neg inflated, (rewriteCentral_copied inflated).2]
    rw [List.map_cons, List.sum_cons, ← ih, ← data]
    simp only [localRegion, centralRegion, List.flatMap_cons, List.length_append, Record.localBytes_length,
      Record.centralBytes_length, first.name]
    omega

/-- Names and contents of the records. -/
theorem RewritesAll.contents (inflates : Z.Inflates std) {fin : Bytes} {decompress : Bool} {pos : Nat}
    {entries : List DirEntry} {records : List Record}
    (rewrites : RewritesAll Z fin decompress pos entries records) :
    records.map (fun r => (r.name, extract std r.central.compressionMethod r.data)) =
      entries.map fun e => (e.name, codeContent std fin decompress e.header) := by
  induction rewrites with
  | nil => rfl
  | cons first _ ih => rw [List.map_cons, List.map_cons, ih, first.name, first.content inflates]

/-- The members of the layout of an archive's records. -/
theorem RewritesAll.members (inflates : Z.Inflates std) {fin : Bytes} {decompress : Bool}
    {entries : List DirEntry} {records : List Record} {z' : ZipFile} {footer : CentralFooter}
    (rewrites : RewritesAll Z fin decompress 0 entries records)
    (consistent : ∀ e ∈ entries, LocalConsistent fin e) (noComment : z'.comment = [])
    (file : z'.bytes = layout records (closeFooter footer records)) (fits : z'.bytes.length < 2 ^ 32) :
    z'.members std = entries.map fun e => (e.name, codeContent std fin decompress e.header) := by
  rw [file, layout_length] at fits
  rw [ZipFile.members, ZipFile.entries_of_layout noComment file
    (UInt32.toNat_ofNat_of_lt' (by simp only [UInt32.size]; omega)), List.map_map, ← rewrites.contents inflates]
  exact members_of_placed std (by rw [List.drop_zero, file, layout]) (rewrites.placed Z (by omega))
    (rewrites.inLine Z consistent)

/-- Where the code finds every member's content, the members are preserved. -/
theorem preserved_of_content (inflates : Z.Inflates std) {z : ZipFile} {decompress : Bool}
    (wellFormed : ∀ e ∈ z.entries, WellFormed std z e) (last : z.LastFooter)
    (small : z.bytes.length < 2 ^ 31) (smallOut : z.outputSize decompress < 2 ^ 31) (nonempty : z.entries ≠ [])
    (content : ∀ e ∈ z.entries, codeContent std z.bytes decompress e.header = memberContent std z.bytes e.header) :
    Preserved Z std z decompress ∧ DeclaredAll Z z.bytes decompress := by
  have declared : ∀ e ∈ z.entries, Declared Z z.bytes decompress e.header ∧
      ∃ w, entryData Z z.bytes decompress e.header = .ok w := by
    intro e member
    obtain ⟨w, here, len⟩ := (wellFormed e member).memberContent
    obtain ⟨data, run, same⟩ := entryData_of_content inflates ((content e member).trans here)
    refine ⟨fun inflated w' run' => ?_, data, run⟩
    rw [run] at run'
    rw [← Except.ok.inj run', same inflated, len]
  have total := z.bytes_length
  have inside : ∀ e ∈ z.entries, e.header.offset.toNat + sizeofLocalHeader ≤ z.body.length := by
    intro e member
    have inside := (wellFormed e member).inside
    rw [memberPosition] at inside
    omega
  simp only [ZipFile.eocd] at total
  obtain ⟨records, rewrites⟩ : ∃ records, RewritesAll Z z.bytes decompress 0 z.entries records :=
    RewritesAll.exists 0 fun e member => ⟨(wellFormed e member).nameShort, by have := inside e member; omega,
      (declared e member).1, (declared e member).2⟩
  have size := rewrites.outputSize
  rw [ZipFile.outputSize, ← size] at smallOut
  have nonzero : z.footer.centralDirectoryOffset ≠ 0 := by
    obtain ⟨e, es, entries⟩ := List.exists_cons_of_ne_nil nonempty
    have start := z.offset
    have room := inside e (by rw [entries]; exact List.mem_cons_self ..)
    rw [sizeofLocalHeader] at room
    intro zero
    rw [zero, UInt32.toNat_zero] at start
    omega
  have run := zipadjust_of_directory Z (z.found last nonempty (by omega)) nonzero z.inside (by omega) z.drop_directory
    z.ends rewrites (by omega)
  have offset : (closeFooter z.footer records).centralDirectoryOffset.toNat = (localRegion records).length :=
    UInt32.toNat_ofNat_of_lt' (by simp only [UInt32.size]; omega)
  generalize zEq : ZipFile.ofRecords records (closeFooter z.footer records) [] z.signature offset (by simp) = z'
  have noComment : z'.comment = [] := by rw [← zEq]; rfl
  have file : z'.bytes = layout records (closeFooter z.footer records) := by
    rw [← zEq, ZipFile.bytes]
    simp only [ZipFile.ofRecords, encodeDirectory_asEntry, List.append_nil]
    rfl
  refine ⟨⟨z', noComment, file ▸ run, ?_⟩, z.declaredAll Z last nonempty (by omega) fun e member =>
    (declared e member).1⟩
  rw [rewrites.members inflates (fun e member => (wellFormed e member).consistent) noComment file
    (by rw [file, layout_length]; omega), ZipFile.members]
  exact List.map_congr_left fun e member => by rw [content e member]

/-- Where the members are preserved, the code found every member's content. -/
theorem content_of_preserved (inflates : Z.Inflates std) {z : ZipFile} {decompress : Bool}
    (wellFormed : ∀ e ∈ z.entries, WellFormed std z e) (last : z.LastFooter)
    (small : z.bytes.length < 2 ^ 31) (written : ∀ x, zipadjust Z z.bytes decompress = .ok x → x.length < 2 ^ 31)
    (preserved : Preserved Z std z decompress) (declared : DeclaredAll Z z.bytes decompress) :
    z.entries ≠ [] ∧
      ∀ e ∈ z.entries, codeContent std z.bytes decompress e.header = memberContent std z.bytes e.header := by
  obtain ⟨z', noComment, run, members⟩ := preserved
  have fits := written _ run
  obtain ⟨footer, entries, records, rest, found, directory, ends, some, rewrites, file⟩ :=
    zipadjust_inv Z run (by omega) declared
  have fits' := fits
  rw [file, layout_length] at fits'
  have nonempty : z.entries ≠ [] := by
    intro empty
    have listed := ZipFile.entries_of_layout noComment file
      (UInt32.toNat_ofNat_of_lt' (by simp only [UInt32.size]; omega))
    rw [ZipFile.members, ZipFile.members, empty, List.map_nil, List.map_eq_nil_iff, listed, List.map_eq_nil_iff]
      at members
    have names := rewrites.names
    rw [members, List.map_nil] at names
    exact some (List.map_eq_nil_iff.mp names.symm)
  refine ⟨nonempty, ?_⟩
  rw [z.found last nonempty (by omega)] at found
  cases found
  rw [z.directoryOf_eq (by omega)] at directory
  obtain rfl := directory_unique z.ends ends directory
  rw [rewrites.members inflates (fun e member => (wellFormed e member).consistent) noComment file (by omega),
    ZipFile.members] at members
  intro e member
  exact (Prod.mk.inj (List.map_inj_left.mp members e member)).2

/-- **Members survive** exactly when the code's data positions lead to their
contents (and the streams it inflates have the declared lengths); so they do
when local and central extra fields have equal lengths. -/
theorem zipadjust_members (Z : Zlib) (std : Inflation) (inflates : Z.Inflates std) (z : ZipFile)
    (decompress : Bool) (wellFormed : ∀ e ∈ z.entries, WellFormed std z e) (last : z.LastFooter)
    (small : z.bytes.length < 2 ^ 31) (smallOut : z.outputSize decompress < 2 ^ 31)
    (written : ∀ x, zipadjust Z z.bytes decompress = .ok x → x.length < 2 ^ 31) :
    (Preserved Z std z decompress ∧ DeclaredAll Z z.bytes decompress ↔
      z.entries ≠ [] ∧
        ∀ e ∈ z.entries, codeContent std z.bytes decompress e.header = memberContent std z.bytes e.header) ∧
    (decompress = false →
      (Preserved Z std z decompress ↔ z.entries ≠ [] ∧
        ∀ e ∈ z.entries, codeContent std z.bytes decompress e.header = memberContent std z.bytes e.header)) ∧
    (z.entries ≠ [] → (∀ e ∈ z.entries, (localHeaderAt z.bytes e).lengthExtra = e.header.lengthExtra) →
      Preserved Z std z decompress) := by
  have enough := preserved_of_content inflates wellFormed last small smallOut
  have needed := content_of_preserved inflates wellFormed last small written
  refine ⟨⟨fun both => needed both.1 both.2, fun content => enough content.1 content.2⟩, ?_, ?_⟩
  · rintro rfl
    have declared : DeclaredAll Z z.bytes false := fun _ _ _ _ _ _ _ inflated => nomatch inflated.1
    exact ⟨fun preserved => needed preserved declared, fun content => (enough content.1 content.2).1⟩
  · exact fun nonempty equal => (enough nonempty fun e member =>
      (wellFormed e member).codeContent_of_equal decompress (equal e member)).1

/-! ### Members with and without a local extra field -/

theorem pairZip_wellFormed : ∀ e ∈ pairZip.entries, WellFormed storedBlock pairZip e := by
  rintro e (_ | ⟨_, _ | ⟨_, ⟨⟩⟩⟩)
  · exact ⟨pairZip_consistent _ (List.mem_cons_self ..), by decide, by decide, by decide, by decide,
      .inr ⟨rfl, [42], by decide, rfl⟩⟩
  · exact ⟨pairZip_consistent _ (List.mem_cons_of_mem _ (List.mem_cons_self ..)), by decide, by decide,
      by decide, by decide, .inl ⟨rfl, rfl⟩⟩

theorem zipadjust_members_sample : Preserved storedBlock.zlib storedBlock pairZip true :=
  (zipadjust_members storedBlock.zlib storedBlock storedBlock.zlib_inflates pairZip true pairZip_wellFormed
    pairZip_last (by rw [pairZip_length]; decide) (by decide) (by
      rw [pairZip_run]
      rintro _ ⟨⟩
      rw [pairOutput_length]
      decide)).2.2 (by decide) (by decide)

/-- The stored entry `a` with four bytes of extra field in its local header only. -/
def paddedEntry : DirEntry where
  header :=
    { sampleEntry.header with flags := 0, compressionMethod := 0, sizeCompressed := 1, sizeUncompressed := 1 }
  name := [97]
  extra := []
  comment := []
  signature := rfl
  nameLength := rfl
  extraLength := rfl
  commentLength := rfl

def paddedZip : ZipFile where
  body := { sampleLocal with flags := 0, compressionMethod := 0, lengthExtra := 4 }.encode ++
    ([97] ++ ([0, 0, 0, 0] ++ [42]))
  entries := [paddedEntry]
  footer :=
    { signature := magicCentralFooter, diskNumber := 0, diskNumberCentralDirectory := 0
      centralDirectoryEntriesThisDisk := 1, centralDirectoryEntriesTotal := 1, centralDirectorySize := 47
      centralDirectoryOffset := 36, lengthComment := 0 }
  comment := []
  signature := rfl
  offset := by decide
  commentLength := rfl

theorem paddedZip_wellFormed : ∀ e ∈ paddedZip.entries, WellFormed storedBlock paddedZip e := by
  rintro e (_ | ⟨_, ⟨⟩⟩)
  exact ⟨⟨by decide, by decide⟩, by decide, by decide, by decide, by decide,
    .inl ⟨rfl, rfl⟩⟩

set_option maxRecDepth 4000

/-- Copied without inflating, the member's content becomes a byte of the padding. -/
theorem zipadjust_loses_member :
    storedBlock.zlib.Inflates storedBlock ∧ (∀ e ∈ paddedZip.entries, WellFormed storedBlock paddedZip e) ∧
    paddedZip.LastFooter ∧ paddedZip.bytes.length < 2 ^ 31 ∧ paddedZip.outputSize false < 2 ^ 31 ∧
    (∀ x, zipadjust storedBlock.zlib paddedZip.bytes false = .ok x → x.length < 2 ^ 31) ∧
    ¬ Preserved storedBlock.zlib storedBlock paddedZip false := by
  have last : paddedZip.LastFooter := by decide
  have small : paddedZip.bytes.length < 2 ^ 31 := by decide
  have written : ∀ x, zipadjust storedBlock.zlib paddedZip.bytes false = .ok x → x.length < 2 ^ 31 := by
    intro x run
    have size : (zipadjust storedBlock.zlib paddedZip.bytes false).toOption.all (·.length < 2 ^ 31) := by
      decide
    rw [run] at size
    exact of_decide_eq_true size
  refine ⟨storedBlock.zlib_inflates, paddedZip_wellFormed, last, small, by decide, written, ?_⟩
  intro preserved
  obtain ⟨-, content⟩ := content_of_preserved storedBlock.zlib_inflates paddedZip_wellFormed last small written
    preserved fun _ _ _ _ _ _ _ inflated => nomatch inflated.1
  have here := content paddedEntry (List.mem_cons_self ..)
  exact absurd here (by decide)

end OpenDelta.Zip
