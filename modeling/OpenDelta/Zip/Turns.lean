import OpenDelta.Zip.Archive

/-!
# The turns of a run

What the rewriting loop does to any directory, also where the headers declare
other sizes than the data has and where `out_index` wraps. `Turn` is an entry
with what the code reads for it; a run succeeds exactly if every entry of the
directory can be read (`zipadjust_iff`), and its output is what the turns write
one after the other.
-/

namespace OpenDelta.Zip
open ByteFile LittleEndian

/-- An entry, its local header and its data as the code reads them. -/
structure Turn where
  entry : DirEntry
  localHeader : Bytes
  data : Bytes

variable (Z : Zlib)

/-- The code reads this for the entry. -/
structure Turn.Read (fin : Bytes) (decompress : Bool) (t : Turn) : Prop where
  nameShort : t.entry.name.length < 1024
  localHeader : xseekread fin t.entry.header.offset.toNat sizeofLocalHeader = .ok t.localHeader
  data : entryData Z fin decompress t.entry.header = .ok t.data

/-- An entry the code can read. -/
structure Readable (fin : Bytes) (decompress : Bool) (e : DirEntry) : Prop where
  nameShort : e.name.length < 1024
  localHeader : e.header.offset.toNat + sizeofLocalHeader ≤ fin.length
  data : ∃ w, entryData Z fin decompress e.header = .ok w

variable {Z} in
theorem Turn.Read.readable {fin : Bytes} {decompress : Bool} {t : Turn} (read : t.Read Z fin decompress) :
    Readable Z fin decompress t.entry := by
  obtain ⟨here, len⟩ := xseekread_inv read.localHeader
  rw [here, slice_length, sizeofLocalHeader] at len
  refine ⟨read.nameShort, ?_, _, read.data⟩
  rw [sizeofLocalHeader]
  omega

variable {Z} in
/-- What the code reads is determined by the entry. -/
theorem Turn.Read.unique {fin : Bytes} {decompress : Bool} {t t' : Turn} (read : t.Read Z fin decompress)
    (read' : t'.Read Z fin decompress) (entry : t.entry = t'.entry) : t = t' := by
  obtain ⟨e, l, w⟩ := t
  obtain ⟨e', l', w'⟩ := t'
  cases entry
  cases read.localHeader.symm.trans read'.localHeader
  cases read.data.symm.trans read'.data
  rfl

/-- The header the code writes for an entry. -/
def Turn.central (decompress : Bool) (outIndex : UInt32) (t : Turn) : CentralHeader :=
  rewriteCentral decompress outIndex t.entry.header

/-- The loop's variables after a turn. -/
def AdjustState.take (decompress : Bool) (st : AdjustState) (t : Turn) : AdjustState where
  directoryIn := pwrite st.directoryIn st.inIndex (t.central decompress st.outIndex).encode
  inIndex := st.inIndex + t.entry.encode.length
  directoryOut := pwrite st.directoryOut st.outDirIndex ((t.central decompress st.outIndex).encode ++ t.entry.name)
  outDirIndex := st.outDirIndex + (46 + t.entry.name.length)
  fout := pwrite (pwrite (pwrite st.fout st.outIndex.toNat
      (rewriteLocal (t.central decompress st.outIndex) (LocalHeader.decode t.localHeader)).encode)
    (st.outIndex + UInt32.ofNat 30).toNat t.entry.name)
    (st.outIndex + UInt32.ofNat 30 + t.entry.header.lengthFilename.toUInt32).toNat t.data
  outIndex := st.outIndex + UInt32.ofNat 30 + t.entry.header.lengthFilename.toUInt32 +
    (t.central decompress st.outIndex).sizeCompressed

/-- The loop's variables after some turns. -/
def AdjustState.takeAll (decompress : Bool) (st : AdjustState) (turns : List Turn) : AdjustState :=
  turns.foldl (AdjustState.take decompress) st

/-- The output directory is as long as the input directory and lags behind it. -/
structure AdjustState.Roomy (st : AdjustState) : Prop where
  room : st.directoryOut.length = st.directoryIn.length
  behind : st.outDirIndex ≤ st.inIndex

theorem startState_roomy {directoryIn : Bytes} {room : Nat} (len : directoryIn.length = room) :
    (startState directoryIn room).Roomy :=
  ⟨(startState_aligned len).room, (startState_aligned len).behind⟩

section Step

variable {fin : Bytes} {decompress : Bool} {st : AdjustState} {t : Turn} {more : Bytes}

theorem take_room (roomy : st.Roomy) (directory : st.directoryIn.drop st.inIndex = t.entry.encode ++ more) :
    st.inIndex + t.entry.encode.length ≤ st.directoryIn.length ∧
      st.outDirIndex + (46 + t.entry.name.length) ≤ st.directoryOut.length := by
  have total := congrArg List.length directory
  have room := roomy.room
  have behind := roomy.behind
  simp only [List.length_drop, List.length_append, DirEntry.encode_length] at total
  rw [DirEntry.encode_length]
  omega

theorem take_roomy (roomy : st.Roomy) (directory : st.directoryIn.drop st.inIndex = t.entry.encode ++ more) :
    (st.take decompress t).Roomy := by
  obtain ⟨inside, room⟩ := take_room roomy directory
  have behind := roomy.behind
  rw [DirEntry.encode_length] at inside
  constructor
  · simp only [AdjustState.take]
    rw [pwrite_length, pwrite_length, roomy.room]
    · rw [CentralHeader.encode_length]
      omega
    · rw [List.length_append, CentralHeader.encode_length]
      exact room
  · simp only [AdjustState.take, DirEntry.encode_length]
    omega

theorem take_directory (directory : st.directoryIn.drop st.inIndex = t.entry.encode ++ more) :
    (st.take decompress t).directoryIn.drop (st.take decompress t).inIndex = more := by
  simp only [AdjustState.take]
  rw [pwrite_drop, ← List.drop_drop, directory, List.drop_left]
  rw [CentralHeader.encode_length, DirEntry.encode_length]
  omega

/-- The first bytes of an entry in the directory. -/
theorem entry_here (directory : st.directoryIn.drop st.inIndex = t.entry.encode ++ more) :
    word32 (slice st.directoryIn st.inIndex 4) = magicCentralHeader ∧
      slice st.directoryIn st.inIndex 46 = t.entry.header.encode ∧
      slice st.directoryIn (st.inIndex + 46) t.entry.name.length = t.entry.name := by
  refine ⟨?_, ?_, ?_⟩
  · rw [slice_at (a := bytes32 t.entry.header.signature) (g := t.entry.encode.drop 4 ++ more)
      (by rw [directory, DirEntry.encode, CentralHeader.encode]; simp) (by simp), word32_bytes32, t.entry.signature]
  · exact slice_at (by rw [directory, DirEntry.encode, List.append_assoc]) (by simp)
  · rw [slice, ← List.drop_drop, directory, DirEntry.encode, List.append_assoc,
      List.drop_left' (CentralHeader.encode_length _), List.append_assoc, List.take_left]

/-- **One turn** on an entry the code can read. -/
theorem adjustEntry_take (roomy : st.Roomy) (directory : st.directoryIn.drop st.inIndex = t.entry.encode ++ more)
    (read : t.Read Z fin decompress) :
    adjustEntry Z fin decompress st = .ok (some (st.take decompress t)) := by
  obtain ⟨nameShort, localRead, data⟩ := read
  obtain ⟨signatureAt, headerAt, nameAt⟩ := entry_here directory
  obtain ⟨inside, room⟩ := take_room roomy directory
  rw [DirEntry.encode_length] at inside
  have copied : slice (pwrite st.directoryIn st.inIndex (t.central decompress st.outIndex).encode) st.inIndex
      (46 + t.entry.name.length) = (t.central decompress st.outIndex).encode ++ t.entry.name := by
    have behind : (st.directoryIn.drop (st.inIndex + 46)).take t.entry.name.length = t.entry.name := nameAt
    rw [slice, pwrite_drop_here (by omega), CentralHeader.encode_length, List.take_append,
      List.take_of_length_le (by rw [CentralHeader.encode_length]; omega), CentralHeader.encode_length,
      Nat.add_sub_cancel_left, behind]
  simp only [adjustEntry, sizeofCentralHeader, signatureAt, headerAt, CentralHeader.decode_encode,
    t.entry.nameLength, nameAt]
  rw [if_neg (by omega), if_neg (fun differ => differ rfl), if_neg (by omega), if_neg (by omega), if_neg (by omega),
    localRead]
  simp only [bind, Except.bind, writeData_at, data, Except.map]
  rw [if_neg (by omega)]
  rw [← Turn.central, copied]
  simp only [AdjustState.take, DirEntry.encode_length, t.entry.extraLength, t.entry.commentLength, Nat.add_assoc]
  rfl

/-- A turn that goes on has read an entry of the directory. -/
theorem adjustEntry_read {st1 : AdjustState} (roomy : st.Roomy)
    (turn : adjustEntry Z fin decompress st = .ok (some st1)) (inside : st1.inIndex ≤ st.directoryIn.length) :
    ∃ t more, st.directoryIn.drop st.inIndex = t.entry.encode ++ more ∧ t.Read Z fin decompress ∧
      st1 = st.take decompress t := by
  obtain ⟨h, l, w, headerEq, signature, nameInside, nameShort, localRead, data, -, indexEq, -⟩ :=
    adjustEntry_some Z turn
  obtain ⟨e, more, directory, rfl⟩ := decode_entry (st.directoryIn.drop st.inIndex) headerEq.symm signature
    (by rw [List.length_drop]; omega)
  rw [e.nameLength] at nameShort
  have read : (⟨e, l, w⟩ : Turn).Read Z fin decompress := ⟨nameShort, localRead, data⟩
  have step := adjustEntry_take Z (t := ⟨e, l, w⟩) roomy directory read
  rw [turn] at step
  exact ⟨⟨e, l, w⟩, more, directory, read, Option.some.inj (Except.ok.inj step)⟩

end Step

/-! ## Whole runs -/

/-- The directory lists the entries of these turns. -/
def listed (turns : List Turn) : Bytes := encodeDirectory (turns.map Turn.entry)

theorem listed_cons (t : Turn) (turns : List Turn) : listed (t :: turns) = t.entry.encode ++ listed turns := by
  simp [listed, encodeDirectory]

/-- A run over a directory of entries the code can read. -/
theorem adjustLoop_takeAll {fin : Bytes} {decompress : Bool} {rest : Bytes} (ends : EndsDirectory rest) :
    ∀ (turns : List Turn) (st : AdjustState) (fuel : Nat), turns.length < fuel → st.Roomy →
      st.directoryIn.drop st.inIndex = listed turns ++ rest → (∀ t ∈ turns, t.Read Z fin decompress) →
      adjustLoop Z fin decompress fuel st = .ok (st.takeAll decompress turns) := by
  intro turns
  induction turns with
  | nil =>
    intro st fuel enough roomy directory _
    obtain ⟨fuel, rfl⟩ := Nat.exists_eq_add_of_lt enough
    rw [show [].length + fuel + 1 = fuel + 1 by simp, adjustLoop, adjustEntry_end Z directory ends]
    rfl
  | cons t turns ih =>
    intro st fuel enough roomy directory reads
    obtain ⟨fuel, rfl⟩ := Nat.exists_eq_add_of_lt enough
    rw [listed_cons, List.append_assoc] at directory
    rw [List.forall_mem_cons] at reads
    rw [show (t :: turns).length + fuel + 1 = turns.length + fuel + 1 + 1 by simp only [List.length_cons]; omega,
      adjustLoop, adjustEntry_take Z roomy directory reads.1]
    exact ih _ _ (by omega) (take_roomy roomy directory) (take_directory directory) reads.2

/-- **A successful run** has taken a turn for each entry of the directory. -/
theorem adjustLoop_read {fin : Bytes} {decompress : Bool} :
    ∀ (fuel : Nat) (st st' : AdjustState), adjustLoop Z fin decompress fuel st = .ok st' → st.Roomy →
      ∃ turns rest, st.directoryIn.drop st.inIndex = listed turns ++ rest ∧ EndsDirectory rest ∧
        (∀ t ∈ turns, t.Read Z fin decompress) ∧ st' = st.takeAll decompress turns := by
  intro fuel
  induction fuel with
  | zero => intro st st' run; cases run
  | succ fuel ih =>
    intro st st' run roomy
    rcases adjustLoop_succ Z run with ⟨turn, rfl⟩ | ⟨st1, turn, others⟩
    · exact ⟨[], _, rfl, adjustEntry_none Z turn, by simp, rfl⟩
    · have inside := adjustLoop_inside Z others
      rw [adjustEntry_directoryIn Z turn] at inside
      obtain ⟨t, more, directory, read, rfl⟩ := adjustEntry_read Z roomy turn (by omega)
      obtain ⟨turns, rest, directory1, ends, reads, rfl⟩ := ih _ _ others (take_roomy roomy directory)
      rw [take_directory directory] at directory1
      refine ⟨t :: turns, rest, ?_, ends, List.forall_mem_cons.mpr ⟨read, reads⟩, rfl⟩
      rw [listed_cons, List.append_assoc, directory, directory1]

/-- The turns of a run of `zipadjust`: those of the directory the search led to. -/
structure Turns (fin : Bytes) (decompress : Bool) (footer : CentralFooter) (turns : List Turn) : Prop where
  found : findFooter fin (searchLength (UInt32.ofNat fin.length)) = .ok (some footer)
  offset : footer.centralDirectoryOffset ≠ 0
  inside : (directoryOf fin footer).length = (UInt32.ofNat fin.length - footer.centralDirectoryOffset).toNat
  directory : ∃ rest, directoryOf fin footer = listed turns ++ rest ∧ EndsDirectory rest
  reads : ∀ t ∈ turns, t.Read Z fin decompress

/-- The variables after the turns of a run. -/
def finalState (fin : Bytes) (decompress : Bool) (footer : CentralFooter) (turns : List Turn) : AdjustState :=
  (startState (directoryOf fin footer) (UInt32.ofNat fin.length - footer.centralDirectoryOffset).toNat).takeAll
    decompress turns

/-- **When `zipadjust` returns 1**, and what it has written then. -/
theorem zipadjust_iff {fin x : Bytes} {decompress : Bool} :
    zipadjust Z fin decompress = .ok x ↔
      ∃ footer turns, Turns Z fin decompress footer turns ∧
        x = finishArchive footer (finalState fin decompress footer turns) := by
  constructor
  · intro run
    rw [zipadjust] at run
    cases found : findFooter fin (searchLength (UInt32.ofNat fin.length)) with
    | error fault =>
      rw [found] at run
      cases run
    | ok result =>
      rw [found] at run
      simp only [bind, Except.bind] at run
      cases result with
      | none => cases run
      | some footer =>
        simp only at run
        by_cases offset : footer.centralDirectoryOffset = 0
        · rw [if_pos offset] at run
          cases run
        rw [if_neg offset] at run
        cases directoryRead : xseekread fin footer.centralDirectoryOffset.toNat
            (UInt32.ofNat fin.length - footer.centralDirectoryOffset).toNat with
        | error fault =>
          rw [directoryRead] at run
          cases run
        | ok directoryIn =>
          obtain ⟨rfl, len⟩ := xseekread_inv directoryRead
          rw [directoryRead] at run
          simp only at run
          rw [← directoryOf, ← startState] at run
          cases loop : adjustLoop Z fin decompress
              ((UInt32.ofNat fin.length - footer.centralDirectoryOffset).toNat + 1)
              (startState (directoryOf fin footer)
                (UInt32.ofNat fin.length - footer.centralDirectoryOffset).toNat) with
          | error fault =>
            rw [loop] at run
            cases run
          | ok st' =>
            rw [loop] at run
            cases run
            obtain ⟨turns, rest, directory, ends, reads, rfl⟩ := adjustLoop_read Z _ _ _ loop (startState_roomy len)
            exact ⟨footer, turns, ⟨found, offset, len, ⟨rest, directory, ends⟩, reads⟩, rfl⟩
  · rintro ⟨footer, turns, ⟨found, offset, inside, ⟨rest, directory, ends⟩, reads⟩, rfl⟩
    have count := length_le_encodeDirectory (turns.map Turn.entry)
    rw [List.length_map, ← listed] at count
    have total := congrArg List.length directory
    rw [List.length_append] at total
    have loop := adjustLoop_takeAll Z ends turns
      (startState (directoryOf fin footer) (UInt32.ofNat fin.length - footer.centralDirectoryOffset).toNat)
      ((UInt32.ofNat fin.length - footer.centralDirectoryOffset).toNat + 1) (by omega)
      (startState_roomy inside) directory reads
    rw [zipadjust, found]
    simp only [bind, Except.bind]
    rw [if_neg offset, xseekread, if_pos (show (slice _ _ _).length = _ from inside), ← directoryOf]
    simp only
    rw [← startState, loop]
    rfl

variable {Z} in
theorem reads_unique {fin : Bytes} {decompress : Bool} :
    ∀ {turns turns' : List Turn}, (∀ t ∈ turns, t.Read Z fin decompress) → (∀ t ∈ turns', t.Read Z fin decompress) →
      turns.map Turn.entry = turns'.map Turn.entry → turns = turns'
  | [], [], _, _, _ => rfl
  | t :: ts, t' :: ts', reads, reads', same => by
    rw [List.map_cons, List.map_cons] at same
    obtain ⟨entry, same⟩ := List.cons.inj same
    rw [List.forall_mem_cons] at reads reads'
    rw [reads.1.unique reads'.1 entry, reads_unique reads.2 reads'.2 same]

variable {Z} in
/-- A run takes its turns in one way only. -/
theorem Turns.unique {fin : Bytes} {decompress : Bool} {footer footer' : CentralFooter} {turns turns' : List Turn}
    (first : Turns Z fin decompress footer turns) (second : Turns Z fin decompress footer' turns') :
    footer = footer' ∧ turns = turns' := by
  obtain rfl : footer = footer' := Option.some.inj (Except.ok.inj (first.found.symm.trans second.found))
  obtain ⟨rest, directory, ends⟩ := first.directory
  obtain ⟨rest', directory', ends'⟩ := second.directory
  have same := directory_unique ends ends' (directory.symm.trans directory')
  exact ⟨rfl, reads_unique first.reads second.reads same⟩

end OpenDelta.Zip
