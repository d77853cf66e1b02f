import OpenDelta.Zip.Structure
import OpenDelta.Zip.Turns

/-!
# Indexing inside the buffers

The loop's cursor moves by three lengths that the input gives, and what stands
there is used as a header before anything has been compared with the size of the
buffer. Only the two reads for an entry can stop it before the next position.
-/

namespace OpenDelta.Zip
open ByteFile LittleEndian

/-! ## The data step never indexes a buffer -/

section Faults

variable (Z : Zlib)

theorem inflateLoop_fault {fault : Fault} : ∀ {fuel : Nat} {strm : Z.Stream} {buf fdOut : Bytes} {posOut : Nat},
    inflateLoop Z fuel strm buf fdOut posOut = .error fault → fault = .failed := by
  intro fuel
  induction fuel with
  | zero =>
    intro strm buf fdOut posOut run
    cases run
    rfl
  | succ fuel ih =>
    intro strm buf fdOut posOut run
    simp only [inflateLoop] at run
    split at run
    all_goals first
      | cases run
        rfl
      | split at run
        · exact ih run
        · cases run

theorem xdecompressLoop_fault {fdIn : Bytes} {fault : Fault} : ∀ {fuel : Nat} {ret : ZRet} {strm : Z.Stream}
    {posIn : Nat} {fdOut : Bytes} {posOut : Nat},
    xdecompressLoop Z fdIn fuel ret strm posIn fdOut posOut = .error fault → fault = .failed := by
  intro fuel
  induction fuel with
  | zero =>
    intro ret strm posIn fdOut posOut run
    simp only [xdecompressLoop] at run
    split at run <;> cases run
    rfl
  | succ fuel ih =>
    intro ret strm posIn fdOut posOut run
    simp only [xdecompressLoop] at run
    split at run
    · split at run <;> cases run
      rfl
    · split at run
      · cases run
        exact inflateLoop_fault Z ‹_›
      · split at run
        · cases run
        · exact ih run

theorem entryData_fault {fin : Bytes} {decompress : Bool} {h : CentralHeader} {fault : Fault}
    (run : entryData Z fin decompress h = .error fault) : fault = .failed := by
  rw [entryData, writeData] at run
  by_cases inflated : decompress ∧ h.compressionMethod = 8
  · rw [if_pos inflated, xdecompress] at run
    split at run
    · cases run
      rfl
    · exact xdecompressLoop_fault Z run
  · rw [if_neg inflated, xfilecopy_eq] at run
    split at run <;> cases run
    rfl

theorem xseekread_fault {fd : Bytes} {offset bytes : Nat} {fault : Fault}
    (run : xseekread fd offset bytes = .error fault) : fault = .failed := by
  rw [xseekread] at run
  split at run <;> cases run
  rfl

theorem findFooter_fault {fin : Bytes} {fault : Fault} : ∀ {n : Nat}, findFooter fin n = .error fault →
    fault = .failed := by
  intro n
  induction n with
  | zero => intro run; cases run
  | succ i ih =>
    intro run
    simp only [findFooter, bind, Except.bind] at run
    split at run
    · cases run
      exact xseekread_fault ‹_›
    · split at run
      · split at run
        · cases run
          exact xseekread_fault ‹_›
        · split at run
          · cases run
            exact xseekread_fault ‹_›
          · split at run
            · cases run
            · exact ih run
      · exact ih run

end Faults

/-! ## Positions -/

/-- What the loop takes for a header at `pos`. -/
def entryAt (directory : Bytes) (pos : Nat) : CentralHeader :=
  CentralHeader.decode (slice directory pos sizeofCentralHeader)

def SignatureAt (directory : Bytes) (pos : Nat) : Prop := word32 (slice directory pos 4) = magicCentralHeader

instance (directory : Bytes) (pos : Nat) : Decidable (SignatureAt directory pos) :=
  inferInstanceAs (Decidable (_ = _))

/-- Where the loop goes from the entry at `pos`. -/
def nextPosition (directory : Bytes) (pos : Nat) : Nat :=
  pos + sizeofCentralHeader + (entryAt directory pos).lengthFilename.toNat + (entryAt directory pos).lengthExtra.toNat +
    (entryAt directory pos).lengthComment.toNat

/-- Header and name of the entry at `pos` lie in the directory, and the name with
its end in `filename`. -/
structure EntryInside (directory : Bytes) (pos : Nat) : Prop where
  header : pos + sizeofCentralHeader ≤ directory.length
  name : (entryAt directory pos).lengthFilename.toNat < 1024
  nameInside : pos + sizeofCentralHeader + (entryAt directory pos).lengthFilename.toNat ≤ directory.length

/-- What the loop indexes at `pos` lies in its buffers. -/
structure InBounds (directory : Bytes) (pos : Nat) : Prop where
  word : pos + 4 ≤ directory.length
  entry : SignatureAt directory pos → EntryInside directory pos

variable (Z : Zlib)

/-- The two reads for an entry succeed. -/
structure EntryReadable (fin : Bytes) (decompress : Bool) (h : CentralHeader) : Prop where
  localHeader : h.offset.toNat + sizeofLocalHeader ≤ fin.length
  data : ∃ w, entryData Z fin decompress h = .ok w

/-- The positions the loop comes to, each entry before them being readable. -/
inductive Reached (fin : Bytes) (decompress : Bool) (directory : Bytes) (start : Nat) : Nat → Prop
  | start : Reached fin decompress directory start start
  | next {pos : Nat} : Reached fin decompress directory start pos → SignatureAt directory pos →
      EntryInside directory pos → EntryReadable Z fin decompress (entryAt directory pos) →
      Reached fin decompress directory start (nextPosition directory pos)

variable {Z} in
/-- The positions reached from the second one on. -/
theorem Reached.step {fin directory : Bytes} {decompress : Bool} {first pos : Nat}
    (signature : SignatureAt directory first) (inside : EntryInside directory first)
    (readable : EntryReadable Z fin decompress (entryAt directory first))
    (reached : Reached Z fin decompress directory (nextPosition directory first) pos) :
    Reached Z fin decompress directory first pos := by
  induction reached with
  | start => exact .next .start signature inside readable
  | next _ signature inside readable ih => exact .next ih signature inside readable

variable {Z} in
/-- A position is the first one, or reached from the second one on. -/
theorem Reached.cases_first {fin directory : Bytes} {decompress : Bool} {first pos : Nat}
    (reached : Reached Z fin decompress directory first pos) :
    pos = first ∨ SignatureAt directory first ∧ EntryInside directory first ∧
      EntryReadable Z fin decompress (entryAt directory first) ∧
      Reached Z fin decompress directory (nextPosition directory first) pos := by
  induction reached with
  | start => exact .inl rfl
  | next _ signature inside readable ih =>
    right
    rcases ih with rfl | ⟨signature', inside', readable', earlier⟩
    · exact ⟨signature, inside, readable, .start⟩
    · exact ⟨signature', inside', readable', .next earlier signature inside readable⟩

variable {Z} in
theorem Reached.le {fin directory : Bytes} {decompress : Bool} {first pos : Nat}
    (reached : Reached Z fin decompress directory first pos) : first ≤ pos := by
  induction reached with
  | start => exact Nat.le_refl _
  | next _ _ _ _ ih =>
    rw [nextPosition]
    omega

/-! ## One turn -/

/-- The loop has not touched the directory from its cursor on. -/
structure AdjustState.Scans (directory : Bytes) (st : AdjustState) : Prop extends st.Roomy where
  rest : st.directoryIn.drop st.inIndex = directory.drop st.inIndex
  length : st.directoryIn.length = directory.length

section Turn

variable {Z} {fin directory : Bytes} {decompress : Bool} {st : AdjustState}

theorem AdjustState.Scans.slice_eq (scans : st.Scans directory) (n : Nat) :
    slice st.directoryIn st.inIndex n = slice directory st.inIndex n := by
  rw [slice, slice, scans.rest]

/-- Outside the buffers. -/
theorem adjustEntry_outside (scans : st.Scans directory) (outside : ¬ InBounds directory st.inIndex) :
    adjustEntry Z fin decompress st = .error .undefined := by
  have length := scans.length
  rw [adjustEntry]
  by_cases word : st.inIndex + 4 ≤ directory.length
  swap
  · rw [if_pos (by omega)]
  rw [if_neg (by omega), scans.slice_eq, scans.slice_eq]
  by_cases signature : SignatureAt directory st.inIndex
  swap
  · exact absurd ⟨word, fun here => absurd here signature⟩ outside
  rw [if_neg (fun differ => differ signature)]
  by_cases header : st.inIndex + sizeofCentralHeader ≤ directory.length
  swap
  · rw [if_pos (by omega)]
  rw [if_neg (by omega)]
  simp only
  rw [← entryAt]
  by_cases name : (entryAt directory st.inIndex).lengthFilename.toNat < 1024
  swap
  · rw [if_pos (by omega)]
  rw [if_neg (by omega), if_pos]
  by_contra inside
  exact outside ⟨word, fun _ => ⟨header, name, by omega⟩⟩

/-- The variables after a turn still fit. -/
theorem AdjustState.Scans.next (scans : st.Scans directory) (inside : EntryInside directory st.inIndex)
    {image copied fout : Bytes} {outIndex : UInt32} (header : image.length = 46)
    (size : copied.length = 46 + (entryAt directory st.inIndex).lengthFilename.toNat) :
    AdjustState.Scans directory {
      directoryIn := pwrite st.directoryIn st.inIndex image
      inIndex := nextPosition directory st.inIndex
      directoryOut := pwrite st.directoryOut st.outDirIndex copied
      outDirIndex := st.outDirIndex + sizeofCentralHeader + (entryAt directory st.inIndex).lengthFilename.toNat
      fout, outIndex } := by
  have room := scans.room
  have behind := scans.behind
  have length := scans.length
  have nameInside := inside.nameInside
  have forward : st.inIndex + sizeofCentralHeader + (entryAt directory st.inIndex).lengthFilename.toNat ≤
      nextPosition directory st.inIndex := by
    rw [nextPosition]
    omega
  simp only [sizeofCentralHeader] at nameInside forward ⊢
  have widthIn : (pwrite st.directoryIn st.inIndex image).length = st.directoryIn.length := pwrite_length (by omega)
  have widthOut : (pwrite st.directoryOut st.outDirIndex copied).length = st.directoryOut.length :=
    pwrite_length (by omega)
  refine ⟨⟨?_, ?_⟩, ?_, ?_⟩
  · rw [widthIn, widthOut, room]
  · simp only
    omega
  · simp only
    rw [pwrite_drop (by omega), show nextPosition directory st.inIndex =
      st.inIndex + (nextPosition directory st.inIndex - st.inIndex) by omega, ← List.drop_drop, scans.rest,
      List.drop_drop]
  · rw [widthIn, length]

variable (Z fin decompress) in
/-- A turn inside the buffers, up to the two reads. -/
theorem adjustEntry_inside (scans : st.Scans directory) (signature : SignatureAt directory st.inIndex)
    (inside : EntryInside directory st.inIndex) :
    (¬ EntryReadable Z fin decompress (entryAt directory st.inIndex) →
      adjustEntry Z fin decompress st = .error .failed) ∧
    (EntryReadable Z fin decompress (entryAt directory st.inIndex) →
      ∃ st1, adjustEntry Z fin decompress st = .ok (some st1) ∧ st1.Scans directory ∧
        st1.inIndex = nextPosition directory st.inIndex) := by
  have length := scans.length
  have room := scans.room
  have behind := scans.behind
  have header := inside.header
  have name := inside.name
  have nameInside := inside.nameInside
  have here : word32 (slice st.directoryIn st.inIndex 4) = magicCentralHeader := by
    rw [scans.slice_eq]
    exact signature
  have headerEq : CentralHeader.decode (slice st.directoryIn st.inIndex sizeofCentralHeader) =
      entryAt directory st.inIndex := by
    rw [scans.slice_eq, entryAt]
  simp only [adjustEntry, headerEq]
  rw [if_neg (by simp only [sizeofCentralHeader] at header; omega), if_neg (fun differ => differ here),
    if_neg (by omega), if_neg (by omega), if_neg (by omega)]
  by_cases localHeader : (entryAt directory st.inIndex).offset.toNat + sizeofLocalHeader ≤ fin.length
  swap
  · rw [xseekread_short (by decide) localHeader]
    exact ⟨fun _ => rfl, fun readable => absurd readable.localHeader localHeader⟩
  rw [xseekread_ok localHeader]
  simp only [bind, Except.bind, writeData_at]
  cases data : entryData Z fin decompress (entryAt directory st.inIndex) with
  | error fault =>
    obtain rfl := entryData_fault Z data
    refine ⟨fun _ => rfl, fun readable => ?_⟩
    obtain ⟨w, read⟩ := readable.data
    rw [data] at read
    cases read
  | ok w =>
    refine ⟨fun unread => absurd ⟨localHeader, w, data⟩ unread, fun _ => ?_⟩
    simp only [Except.map]
    rw [if_neg (by omega)]
    refine ⟨_, rfl, scans.next inside (CentralHeader.encode_length _) ?_, rfl⟩
    rw [slice_length, pwrite_length (by rw [CentralHeader.encode_length]; simp only [sizeofCentralHeader] at header; omega)]
    simp only [sizeofCentralHeader] at nameInside ⊢
    omega

end Turn

/-! ## The loop -/

section Loop

variable {fin directory : Bytes} {decompress : Bool}

/-- **The loop** indexes inside its buffers exactly if it only comes to
positions where it does. -/
theorem adjustLoop_bounds : ∀ (fuel : Nat) (st : AdjustState), st.Scans directory →
    directory.length < st.inIndex + fuel →
    (adjustLoop Z fin decompress fuel st ≠ .error .undefined ↔
      ∀ pos, Reached Z fin decompress directory st.inIndex pos → InBounds directory pos) := by
  intro fuel
  induction fuel with
  | zero =>
    intro st scans enough
    refine iff_of_false (fun defined => defined rfl) fun bounds => ?_
    have word := (bounds _ .start).word
    omega
  | succ fuel ih =>
    intro st scans enough
    rw [adjustLoop]
    by_cases bounds : InBounds directory st.inIndex
    swap
    · rw [adjustEntry_outside scans bounds]
      exact iff_of_false (fun defined => defined rfl) fun all => bounds (all _ .start)
    by_cases signature : SignatureAt directory st.inIndex
    swap
    · have ends : EndsDirectory (directory.drop st.inIndex) := by
        refine ⟨?_, signature⟩
        have word := bounds.word
        rw [List.length_drop]
        omega
      rw [adjustEntry_end Z scans.rest ends]
      refine iff_of_true (fun undefined => by cases undefined) fun pos reached => ?_
      rcases reached.cases_first with rfl | ⟨here, -⟩
      · exact bounds
      · exact absurd here signature
    have inside := bounds.entry signature
    obtain ⟨refused, goes⟩ := adjustEntry_inside Z fin decompress scans signature inside
    by_cases readable : EntryReadable Z fin decompress (entryAt directory st.inIndex)
    swap
    · rw [refused readable]
      refine iff_of_true (fun undefined => by cases undefined) fun pos reached => ?_
      rcases reached.cases_first with rfl | ⟨-, -, read, -⟩
      · exact bounds
      · exact absurd read readable
    obtain ⟨st1, turn, scans1, position⟩ := goes readable
    have forward : st.inIndex + 46 ≤ st1.inIndex := by
      rw [position, nextPosition, sizeofCentralHeader]
      omega
    rw [turn]
    refine (ih st1 scans1 (by omega)).trans ?_
    rw [position]
    constructor
    · intro later pos reached
      rcases reached.cases_first with rfl | ⟨-, -, -, reached⟩
      · exact bounds
      · exact later pos reached
    · exact fun all pos reached => all pos (reached.step signature inside readable)

/-- An entry that cannot be read ends the call. -/
theorem adjustLoop_refused {pos : Nat} (signature : SignatureAt directory pos) (inside : EntryInside directory pos)
    (unread : ¬ EntryReadable Z fin decompress (entryAt directory pos)) : ∀ (fuel : Nat) (st : AdjustState),
    st.Scans directory → directory.length < st.inIndex + fuel → Reached Z fin decompress directory st.inIndex pos →
      adjustLoop Z fin decompress fuel st = .error .failed := by
  intro fuel
  induction fuel with
  | zero =>
    intro st _ enough reached
    have forward := reached.le
    have header := inside.header
    omega
  | succ fuel ih =>
    intro st scans enough reached
    rw [adjustLoop]
    rcases reached.cases_first with rfl | ⟨signature', inside', readable, reached⟩
    · rw [(adjustEntry_inside Z fin decompress scans signature inside).1 unread]
      rfl
    · obtain ⟨st1, turn, scans1, position⟩ := (adjustEntry_inside Z fin decompress scans signature' inside').2 readable
      have forward : st.inIndex + 46 ≤ st1.inIndex := by
        rw [position, nextPosition, sizeofCentralHeader]
        omega
      rw [turn]
      exact ih st1 scans1 (by omega) (position ▸ reached)

end Loop

/-! ## The whole function -/

/-- The search leads to this record, and the directory is read. -/
structure Found (fin : Bytes) (footer : CentralFooter) : Prop where
  found : findFooter fin (searchLength (UInt32.ofNat fin.length)) = .ok (some footer)
  offset : footer.centralDirectoryOffset ≠ 0
  inside : (directoryOf fin footer).length = (UInt32.ofNat fin.length - footer.centralDirectoryOffset).toNat

/-- The lengths of the entry at `pos` lead out of the directory or of `filename`. -/
def MalformedAt (directory : Bytes) (pos : Nat) : Prop :=
  SignatureAt directory pos ∧
    (directory.length < nextPosition directory pos ∨ 1024 ≤ (entryAt directory pos).lengthFilename.toNat)

/-- No call indexes outside its buffers, and a malformed entry is answered with 0. -/
structure IndexesInside (fin : Bytes) (decompress : Bool) : Prop where
  inside : zipadjust Z fin decompress ≠ .error .undefined
  malformed : ∀ footer, Found fin footer → ∀ pos, Reached Z fin decompress (directoryOf fin footer) 0 pos →
    MalformedAt (directoryOf fin footer) pos → zipadjust Z fin decompress = .error .failed

section Whole

variable {fin : Bytes} {decompress : Bool} {footer : CentralFooter}

theorem Found.run (found : Found fin footer) :
    zipadjust Z fin decompress = (adjustLoop Z fin decompress ((directoryOf fin footer).length + 1)
      (startState (directoryOf fin footer) (directoryOf fin footer).length)).map (finishArchive footer) := by
  rw [zipadjust, found.found]
  simp only [bind, Except.bind]
  rw [if_neg found.offset, xseekread, if_pos (show (slice _ _ _).length = _ from found.inside), ← directoryOf,
    ← found.inside]
  rfl

theorem startState_scans (directory : Bytes) : (startState directory directory.length).Scans directory where
  toRoomy := startState_roomy rfl
  rest := rfl
  length := rfl

variable (decompress footer) in
theorem startState_bounds :
    adjustLoop Z fin decompress ((directoryOf fin footer).length + 1)
      (startState (directoryOf fin footer) (directoryOf fin footer).length) ≠ .error .undefined ↔
    ∀ pos, Reached Z fin decompress (directoryOf fin footer) 0 pos → InBounds (directoryOf fin footer) pos :=
  adjustLoop_bounds Z _ _ (startState_scans _) (Nat.lt_of_lt_of_eq (Nat.lt_succ_self _) (Nat.zero_add _).symm)

/-- Without a directory the call returns 0. -/
theorem zipadjust_unfound (none : ∀ footer, ¬ Found fin footer) : zipadjust Z fin decompress = .error .failed := by
  rw [zipadjust]
  cases search : findFooter fin (searchLength (UInt32.ofNat fin.length)) with
  | error fault =>
    obtain rfl := findFooter_fault search
    rfl
  | ok result =>
    cases result with
    | none => rfl
    | some footer =>
      simp only [bind, Except.bind]
      by_cases offset : footer.centralDirectoryOffset = 0
      · rw [if_pos offset]
      · rw [if_neg offset, xseekread,
          if_neg (show ¬ (slice _ _ _).length = _ from fun inside => none footer ⟨search, offset, inside⟩)]

/-- **No index out of bounds**: exactly where the loop comes to no header and no
name that leave the buffers. -/
theorem zipadjust_indexesInside_iff : IndexesInside Z fin decompress ↔
    ∀ footer, Found fin footer → ∀ pos, Reached Z fin decompress (directoryOf fin footer) 0 pos →
      InBounds (directoryOf fin footer) pos := by
  constructor
  · intro indexes footer found
    refine (startState_bounds Z decompress footer).mp fun undefined => ?_
    refine indexes.inside ?_
    rw [found.run, undefined]
    rfl
  · intro bounds
    constructor
    · intro undefined
      by_cases found : ∃ footer, Found fin footer
      · obtain ⟨footer, found⟩ := found
        refine (startState_bounds Z decompress footer).mpr (bounds footer found) ?_
        rw [found.run] at undefined
        cases loop : adjustLoop Z fin decompress ((directoryOf fin footer).length + 1)
            (startState (directoryOf fin footer) (directoryOf fin footer).length) with
        | error fault =>
          rw [loop] at undefined
          cases undefined
          rfl
        | ok st =>
          rw [loop] at undefined
          cases undefined
      · rw [zipadjust_unfound Z fun footer here => found ⟨footer, here⟩] at undefined
        cases undefined
    · rintro footer found pos reached ⟨signature, malformed⟩
      have inside := (bounds footer found pos reached).entry signature
      -- a readable entry would lead to a position outside
      have unread : ¬ EntryReadable Z fin decompress (entryAt (directoryOf fin footer) pos) := by
        intro readable
        have next := (bounds footer found _ (.next reached signature inside readable)).word
        have name := inside.name
        omega
      rw [found.run, adjustLoop_refused Z signature inside unread _ _ (startState_scans _)
        (Nat.lt_of_lt_of_eq (Nat.lt_succ_self _) (Nat.zero_add _).symm) reached]
      rfl

end Whole

/-! ### A name of 1024 bytes -/

/-- The sample entry under a name that fills `filename`. -/
def longNameEntry : DirEntry where
  header := { sampleEntry.header with lengthFilename := 1024 }
  name := List.replicate 1024 97
  extra := []
  comment := []
  signature := rfl
  nameLength := List.length_replicate.symm
  extraLength := rfl
  commentLength := rfl

/-- A ZIP with that entry. -/
def longNameZip : ZipFile where
  body := ({ sampleLocal with lengthFilename := 1024 } : LocalHeader).encode ++
    (List.replicate 1024 97 ++ ([1, 1, 0, 254, 255, 42] ++
    (bytes32 sampleEntry.header.crc32 ++ (bytes32 6 ++ bytes32 1))))
  entries := [longNameEntry]
  footer := { sampleZip.footer with centralDirectorySize := 1070, centralDirectoryOffset := 1072, lengthComment := 0 }
  comment := []
  signature := rfl
  offset := by
    rw [List.length_append, List.length_append, List.length_replicate, LocalHeader.encode_length]
    rfl
  commentLength := rfl

/-- The terminating zero is written behind `filename`. -/
theorem longName_undefined : ¬ IndexesInside storedBlock.zlib longNameZip.bytes false ∧
    zipadjust storedBlock.zlib longNameZip.bytes false = .error .undefined := by
  have run : zipadjust storedBlock.zlib longNameZip.bytes false = .error .undefined := by decide +kernel
  exact ⟨fun indexes => indexes.inside run, run⟩

end OpenDelta.Zip
