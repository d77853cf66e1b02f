import Mathlib.Algebra.GroupWithZero.Nat
import OpenDelta.Zip.Structure
import OpenDelta.Zip.Turns

/-!
# The offsets a run records

`out_index` is a `uint32_t` that grows by the sizes the headers declare. The
code records it for each entry and in the EOCD record; `positions` are the
positions themselves. The two agree exactly below 4 GiB.
-/

namespace OpenDelta.Zip
open ByteFile LittleEndian

variable (decompress : Bool)

/-- The size the code writes into an entry's headers. -/
def Turn.size (t : Turn) : UInt32 := (t.central decompress 0).sizeCompressed

/-- How far a turn moves in the output. -/
def Turn.span (t : Turn) : Nat := 30 + t.entry.name.length + (t.size decompress).toNat

/-- `out_index` after a turn. -/
def Turn.next (outIndex : UInt32) (t : Turn) : UInt32 :=
  outIndex + UInt32.ofNat 30 + t.entry.header.lengthFilename.toUInt32 + (t.central decompress outIndex).sizeCompressed

/-- Where the records stand, the first one at `pos`. -/
def positions : Nat → List Turn → List Nat
  | _, [] => []
  | pos, t :: ts => pos :: positions (pos + t.span decompress) ts

/-- Where the last record ends. -/
def spans (turns : List Turn) : Nat := (turns.map (Turn.span decompress)).sum

/-- The offsets the code records. -/
def offsets : UInt32 → List Turn → List UInt32
  | _, [] => []
  | outIndex, t :: ts => outIndex :: offsets (t.next decompress outIndex) ts

/-- `out_index` behind the last record. -/
def lastIndex : UInt32 → List Turn → UInt32
  | outIndex, [] => outIndex
  | outIndex, t :: ts => lastIndex (t.next decompress outIndex) ts

/-- The directory with the recorded offsets. -/
def recordedDirectory : UInt32 → List Turn → Bytes
  | _, [] => []
  | outIndex, t :: ts =>
    (t.central decompress outIndex).encode ++ t.entry.name ++ recordedDirectory (t.next decompress outIndex) ts

def directorySize (turns : List Turn) : Nat := (turns.map fun t => 46 + t.entry.name.length).sum

/-- The footer behind the directory. -/
def lastFooter (footer : CentralFooter) (turns : List Turn) : CentralFooter :=
  { footer with
    centralDirectorySize := UInt32.ofNat (directorySize turns)
    centralDirectoryOffset := lastIndex decompress 0 turns
    lengthComment := 0 }

variable {decompress}

theorem Turn.central_sizeCompressed (outIndex : UInt32) (t : Turn) :
    (t.central decompress outIndex).sizeCompressed = t.size decompress := by
  by_cases inflated : decompress ∧ t.entry.header.compressionMethod = 8
  · rw [Turn.size, Turn.central, Turn.central, (rewriteCentral_inflated inflated).2,
      (rewriteCentral_inflated inflated).2]
  · rw [Turn.size, Turn.central, Turn.central, (rewriteCentral_copied inflated).2, (rewriteCentral_copied inflated).2]

/-- `out_index` is the position modulo 4 GiB. -/
theorem Turn.next_ofNat (pos : Nat) (t : Turn) :
    t.next decompress (UInt32.ofNat pos) = UInt32.ofNat (pos + t.span decompress) := by
  have name : t.entry.header.lengthFilename.toUInt32 = UInt32.ofNat t.entry.name.length := by
    rw [← t.entry.nameLength, ← UInt16.toNat_toUInt32, UInt32.ofNat_toNat]
  have size : t.size decompress = UInt32.ofNat (t.size decompress).toNat := by rw [UInt32.ofNat_toNat]
  rw [Turn.next, t.central_sizeCompressed, name, size, ← UInt32.ofNat_add, ← UInt32.ofNat_add, ← UInt32.ofNat_add,
    Turn.span, Nat.add_assoc, Nat.add_assoc, Nat.add_assoc]

variable (decompress) in
theorem offsets_ofNat : ∀ (turns : List Turn) (pos : Nat),
    offsets decompress (UInt32.ofNat pos) turns = (positions decompress pos turns).map UInt32.ofNat
  | [], _ => rfl
  | t :: ts, pos => by
    rw [offsets, t.next_ofNat, offsets_ofNat ts, positions, List.map_cons]

variable (decompress) in
theorem lastIndex_ofNat : ∀ (turns : List Turn) (pos : Nat),
    lastIndex decompress (UInt32.ofNat pos) turns = UInt32.ofNat (pos + spans decompress turns)
  | [], _ => rfl
  | t :: ts, pos => by
    rw [lastIndex, t.next_ofNat, lastIndex_ofNat ts, spans, spans, List.map_cons, List.sum_cons, Nat.add_assoc]

theorem recordedDirectory_length : ∀ (turns : List Turn) (outIndex : UInt32),
    (recordedDirectory decompress outIndex turns).length = directorySize turns
  | [], _ => rfl
  | t :: ts, outIndex => by
    simp only [recordedDirectory, List.length_append, CentralHeader.encode_length, recordedDirectory_length ts,
      directorySize, List.map_cons, List.sum_cons]

/-- The positions lie before the end of the last record. -/
theorem positions_le {turns : List Turn} : ∀ {pos p : Nat}, p ∈ positions decompress pos turns →
    p ≤ pos + spans decompress turns := by
  induction turns with
  | nil => exact fun member => nomatch member
  | cons t ts ih =>
    intro pos p member
    rw [spans, List.map_cons, List.sum_cons, ← spans]
    rcases List.mem_cons.mp member with rfl | later
    · omega
    · have := ih later
      omega

theorem directorySize_le (turns : List Turn) : directorySize turns ≤ (listed turns).length := by
  induction turns with
  | nil => exact Nat.le_refl _
  | cons t ts ih =>
    simp only [listed_cons, directorySize, List.map_cons, List.sum_cons, List.length_append,
      DirEntry.encode_length] at ih ⊢
    omega

/-! ## The output of a run -/

theorem takeAll_outIndex (turns : List Turn) (st : AdjustState) :
    (st.takeAll decompress turns).outIndex = lastIndex decompress st.outIndex turns := by
  induction turns generalizing st with
  | nil => rfl
  | cons t ts ih => exact ih (st.take decompress t)

variable (decompress) in
/-- A run fills the output directory with headers that carry its offsets. -/
theorem takeAll_directory {rest : Bytes} : ∀ (turns : List Turn) (st : AdjustState), st.Roomy →
    st.directoryIn.drop st.inIndex = listed turns ++ rest →
    (st.takeAll decompress turns).outDirIndex = st.outDirIndex + directorySize turns ∧
      (st.takeAll decompress turns).directoryOut.take (st.takeAll decompress turns).outDirIndex =
        st.directoryOut.take st.outDirIndex ++ recordedDirectory decompress st.outIndex turns := by
  intro turns
  induction turns with
  | nil => exact fun st _ _ => ⟨rfl, (List.append_nil _).symm⟩
  | cons t ts ih =>
    intro st roomy listing
    rw [listed_cons, List.append_assoc] at listing
    obtain ⟨-, room⟩ := take_room roomy listing
    obtain ⟨index, written⟩ := ih (st.take decompress t) (take_roomy roomy listing) (take_directory listing)
    have entered : (st.take decompress t).directoryOut.take (st.take decompress t).outDirIndex =
        st.directoryOut.take st.outDirIndex ++ ((t.central decompress st.outIndex).encode ++ t.entry.name) := by
      have size : ((t.central decompress st.outIndex).encode ++ t.entry.name).length = 46 + t.entry.name.length := by
        rw [List.length_append, CentralHeader.encode_length]
      simp only [AdjustState.take]
      rw [← size] at room ⊢
      exact pwrite_take room
    constructor
    · refine index.trans ?_
      simp only [AdjustState.take, directorySize, List.map_cons, List.sum_cons]
      omega
    · refine written.trans ?_
      rw [entered, List.append_assoc]
      rfl

variable {Z : Zlib} {fin : Bytes} {footer : CentralFooter} {turns : List Turn}

/-- **The output of a run**: records, a directory with the recorded offsets, and
a footer with the offset of the directory. -/
theorem Turns.output (run : Turns Z fin decompress footer turns) :
    finishArchive footer (finalState fin decompress footer turns) =
      pwrite (pwrite (finalState fin decompress footer turns).fout (lastIndex decompress 0 turns).toNat
          (recordedDirectory decompress 0 turns))
        (lastIndex decompress 0 turns + UInt32.ofNat (directorySize turns)).toNat
        (lastFooter decompress footer turns).encode := by
  obtain ⟨rest, listing, -⟩ := run.directory
  obtain ⟨index, written⟩ := takeAll_directory decompress turns
    (startState (directoryOf fin footer) (UInt32.ofNat fin.length - footer.centralDirectoryOffset).toNat)
    (startState_roomy run.inside) listing
  rw [← finalState] at index written
  have outDir : (finalState fin decompress footer turns).outDirIndex = directorySize turns :=
    index.trans (Nat.zero_add _)
  rw [outDir] at written
  have outIndex : (finalState fin decompress footer turns).outIndex = lastIndex decompress 0 turns :=
    takeAll_outIndex ..
  have fits : directorySize turns < 2 ^ 32 := by
    have total := congrArg List.length listing
    have inSize := (UInt32.ofNat fin.length - footer.centralDirectoryOffset).toNat_lt
    have short := directorySize_le turns
    have inside := run.inside
    rw [List.length_append] at total
    omega
  have size : (UInt32.ofNat (directorySize turns)).toNat = directorySize turns :=
    UInt32.toNat_ofNat_of_lt' (by simpa using fits)
  simp only [finishArchive, xseekwrite, outDir, outIndex, size, written, lastFooter]
  rfl

/-! ## No silent wrap -/

variable (decompress turns) in
/-- The recorded offsets are the positions. -/
structure Truthful : Prop where
  locals : (offsets decompress 0 turns).map UInt32.toNat = positions decompress 0 turns
  directory : (lastIndex decompress 0 turns).toNat = spans decompress turns

variable (decompress turns) in
/-- `out_index` is the output position all the way to the EOCD record. -/
structure NoWrap : Prop extends Truthful decompress turns where
  footer : (lastIndex decompress 0 turns + UInt32.ofNat (directorySize turns)).toNat =
    spans decompress turns + directorySize turns

theorem UInt32.toNat_ofNat_iff {n : Nat} : (UInt32.ofNat n).toNat = n ↔ n < 2 ^ 32 :=
  ⟨fun same => same ▸ UInt32.toNat_lt _, fun below => UInt32.toNat_ofNat_of_lt' (by simpa using below)⟩

variable (decompress turns) in
theorem lastIndex_zero : lastIndex decompress 0 turns = UInt32.ofNat (spans decompress turns) := by
  have last := lastIndex_ofNat decompress turns 0
  rw [Nat.zero_add] at last
  exact last

/-- The offsets are exact as long as the last record ends below 4 GiB. -/
theorem truthful_iff : Truthful decompress turns ↔ spans decompress turns < 2 ^ 32 := by
  constructor
  · intro truthful
    have last := truthful.directory
    rw [lastIndex_zero] at last
    exact UInt32.toNat_ofNat_iff.mp last
  · intro below
    refine ⟨?_, by rw [lastIndex_zero]; exact UInt32.toNat_ofNat_iff.mpr below⟩
    have recorded := offsets_ofNat decompress turns 0
    rw [show UInt32.ofNat 0 = 0 from rfl] at recorded
    rw [recorded, List.map_map]
    refine (List.map_congr_left fun p member => ?_).trans (List.map_id _)
    have := positions_le member
    exact UInt32.toNat_ofNat_iff.mpr (by omega)

/-- And everything is, when the directory ends there as well. -/
theorem noWrap_iff : NoWrap decompress turns ↔ spans decompress turns + directorySize turns < 2 ^ 32 := by
  have footer : (lastIndex decompress 0 turns + UInt32.ofNat (directorySize turns)).toNat =
      spans decompress turns + directorySize turns ↔ spans decompress turns + directorySize turns < 2 ^ 32 := by
    rw [lastIndex_zero, ← UInt32.ofNat_add]
    exact UInt32.toNat_ofNat_iff
  refine ⟨fun noWrap => footer.mp noWrap.footer, fun below => ⟨truthful_iff.mpr (by omega), footer.mpr below⟩⟩

/-- A return of 1 means that no position has wrapped. -/
def WrapsNever (Z : Zlib) (fin : Bytes) (decompress : Bool) : Prop :=
  ∀ x, zipadjust Z fin decompress = .ok x →
    ∃ footer turns, Turns Z fin decompress footer turns ∧
      x = pwrite (pwrite (finalState fin decompress footer turns).fout (lastIndex decompress 0 turns).toNat
          (recordedDirectory decompress 0 turns))
        (lastIndex decompress 0 turns + UInt32.ofNat (directorySize turns)).toNat
        (lastFooter decompress footer turns).encode ∧
      NoWrap decompress turns

/-- **Positions wrap** exactly where `zipadjust` can read every entry and the
sizes it writes add up to 4 GiB or more. -/
theorem zipadjust_wrapsNever_iff : WrapsNever Z fin decompress ↔
    ∀ footer turns, Turns Z fin decompress footer turns →
      spans decompress turns + directorySize turns < 2 ^ 32 := by
  constructor
  · intro never footer turns run
    obtain ⟨footer', turns', run', -, noWrap⟩ := never _ ((zipadjust_iff Z).mpr ⟨footer, turns, run, rfl⟩)
    obtain ⟨-, rfl⟩ := run.unique run'
    exact noWrap_iff.mp noWrap
  · intro below x run
    obtain ⟨footer, turns, taken, rfl⟩ := (zipadjust_iff Z).mp run
    exact ⟨footer, turns, taken, taken.output, noWrap_iff.mpr (below footer turns taken)⟩

/-! ### Two entries that declare 4 GiB -/

/-- A deflated entry of one byte that declares a size of `2 ^ 32 - 1`. -/
def longEntry (name : UInt8) (offset : UInt32) : DirEntry where
  header := { sampleEntry.header with sizeUncompressed := 0xFFFFFFFF, offset }
  name := [name]
  extra := []
  comment := []
  signature := rfl
  nameLength := rfl
  extraLength := rfl
  commentLength := rfl

def wrappingZip : ZipFile where
  body := sampleLocal.encode ++ ([97] ++ ([1, 1, 0, 254, 255, 42] ++
    (sampleLocal.encode ++ ([98] ++ [1, 1, 0, 254, 255, 43]))))
  entries := [longEntry 97 0, longEntry 98 37]
  footer :=
    { signature := magicCentralFooter, diskNumber := 0, diskNumberCentralDirectory := 0
      centralDirectoryEntriesThisDisk := 2, centralDirectoryEntriesTotal := 2, centralDirectorySize := 94
      centralDirectoryOffset := 74, lengthComment := 0 }
  comment := []
  signature := rfl
  offset := by decide
  commentLength := rfl

/-- What the code reads for the two entries. -/
def wrappingTurns : List Turn :=
  [⟨longEntry 97 0, sampleLocal.encode, [42]⟩, ⟨longEntry 98 37, sampleLocal.encode, [43]⟩]

set_option maxRecDepth 4000

theorem wrappingZip_turns : Turns storedBlock.zlib wrappingZip.bytes true wrappingZip.footer wrappingTurns where
  found := wrappingZip.found (by decide) (by decide) (by decide)
  offset := by decide
  inside := by decide
  directory := ⟨_, wrappingZip.directoryOf_eq (by decide), wrappingZip.ends⟩
  reads := by
    rintro t (_ | ⟨_, _ | ⟨_, ⟨⟩⟩⟩)
    · exact ⟨by decide, by decide, by decide⟩
    · exact ⟨by decide, by decide, by decide⟩

/-- The run succeeds, and its second record stands at the offset 30. -/
theorem zipadjust_wraps : wrappingZip.bytes.length < 2 ^ 31 ∧ ¬ WrapsNever storedBlock.zlib wrappingZip.bytes true := by
  refine ⟨by decide, fun never => ?_⟩
  obtain ⟨footer, turns, run, -, noWrap⟩ :=
    never _ ((zipadjust_iff _).mpr ⟨_, _, wrappingZip_turns, rfl⟩)
  obtain ⟨-, rfl⟩ := wrappingZip_turns.unique run
  exact absurd (noWrap_iff.mp noWrap) (by decide)

end OpenDelta.Zip
