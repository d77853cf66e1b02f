import OpenDelta.Zip.Offsets

/-!
# The fields a run rewrites

`central_header->flags & !8` is meant to clear bit 3, the data descriptor. `!8`
is 0 in C, so the line clears every flag of every entry, the UTF-8 name bit with
the others.
-/

namespace OpenDelta.Zip
open ByteFile LittleEndian

/-- The output's header differs from the input's as intended. -/
def Intended (decompress : Bool) (h h' : CentralHeader) : Prop :=
  h' = { h with
    offset := h'.offset
    flags := h.flags &&& ~~~8
    compressionMethod := if decompress ∧ h.compressionMethod = 8 then 0 else h.compressionMethod
    sizeCompressed := if decompress ∧ h.compressionMethod = 8 then h'.sizeCompressed else h.sizeCompressed
    lengthExtra := 0
    lengthComment := 0 }

/-- The entry has no flag but the one that is to be cleared. -/
def OnlyDescriptorFlag (h : CentralHeader) : Prop := h.flags &&& ~~~8 = 0

instance (h : CentralHeader) : Decidable (OnlyDescriptorFlag h) := inferInstanceAs (Decidable (_ = _))

variable {decompress : Bool}

/-- **What the code makes of a header**: the intended fields, and no flag. -/
theorem rewriteCentral_fields (outIndex : UInt32) (h : CentralHeader) :
    rewriteCentral decompress outIndex h = { h with
      offset := outIndex
      flags := 0
      compressionMethod := if decompress ∧ h.compressionMethod = 8 then 0 else h.compressionMethod
      sizeCompressed := if decompress ∧ h.compressionMethod = 8 then h.sizeUncompressed else h.sizeCompressed
      lengthExtra := 0
      lengthComment := 0 } := by
  have noFlags : h.flags &&& 0 = 0 := UInt16.and_zero
  by_cases inflated : decompress ∧ h.compressionMethod = 8
  · simp only [rewriteCentral, if_pos inflated, noFlags]
  · simp only [rewriteCentral, if_neg inflated, noFlags]

theorem intended_iff (outIndex : UInt32) (h : CentralHeader) :
    Intended decompress h (rewriteCentral decompress outIndex h) ↔ OnlyDescriptorFlag h := by
  rw [rewriteCentral_fields, Intended, OnlyDescriptorFlag]
  constructor
  · intro same
    exact (congrArg CentralHeader.flags same).symm
  · intro only
    by_cases inflated : decompress ∧ h.compressionMethod = 8
    · simp only [if_pos inflated, only]
    · simp only [if_neg inflated, only]

/-! ## The headers of the output -/

/-- The header of an entry in the directory a run writes. -/
theorem recordedDirectory_header : ∀ (before : List Turn) (t : Turn) (after : List Turn) (outIndex : UInt32),
    ∃ recorded, slice (recordedDirectory decompress outIndex (before ++ t :: after)) (directorySize before) 46 =
      (t.central decompress recorded).encode
  | [], t, after, outIndex => by
    refine ⟨outIndex, ?_⟩
    rw [List.nil_append, recordedDirectory, List.append_assoc]
    exact slice_at rfl (CentralHeader.encode_length _)
  | b :: before, t, after, outIndex => by
    obtain ⟨recorded, here⟩ := recordedDirectory_header before t after (b.next decompress outIndex)
    refine ⟨recorded, ?_⟩
    have width : ((b.central decompress outIndex).encode ++ b.entry.name).length = 46 + b.entry.name.length := by
      rw [List.length_append, CentralHeader.encode_length]
    rw [← here, List.cons_append, recordedDirectory, directorySize, List.map_cons, List.sum_cons, ← directorySize, slice,
      ← List.drop_drop, List.drop_left' width, slice]

/-- The header of the entry behind `before`, read from the directory. -/
def recordedHeader (decompress : Bool) (turns before : List Turn) : CentralHeader :=
  CentralHeader.decode (slice (recordedDirectory decompress 0 turns) (directorySize before) 46)

theorem recordedHeader_eq (before : List Turn) (t : Turn) (after : List Turn) :
    ∃ recorded, recordedHeader decompress (before ++ t :: after) before = t.central decompress recorded := by
  obtain ⟨recorded, here⟩ := recordedDirectory_header before t after 0
  exact ⟨recorded, by rw [recordedHeader, here, CentralHeader.decode_encode]⟩

variable {Z : Zlib} {fin : Bytes} {footer : CentralFooter} {turns : List Turn}

/-- An input below 4 GiB leaves room for the EOCD record behind a wrapped directory. -/
theorem Turns.directory_small (run : Turns Z fin decompress footer turns) (below : fin.length < 2 ^ 32) :
    directorySize turns + 22 ≤ 2 ^ 32 := by
  have small : fin.length < 2 ^ 31 + 4 := by
    by_contra large
    have found := run.found
    rw [searchLength_large (by omega) below] at found
    cases found
  obtain ⟨-, inside, -⟩ := findFooter_some run.found
  obtain ⟨rest, directory, -⟩ := run.directory
  have total := congrArg List.length directory
  rw [List.length_append, directoryOf, slice_length] at total
  have listing := directorySize_le turns
  omega

/-- **The headers of the output file** are those of the directory, where its
EOCD record says that the directory starts. -/
theorem Turns.output_header (run : Turns Z fin decompress footer turns) (below : fin.length < 2 ^ 32)
    {before after : List Turn} {t : Turn} (here : turns = before ++ t :: after) :
    CentralHeader.decode (slice (finishArchive footer (finalState fin decompress footer turns))
      ((lastFooter decompress footer turns).centralDirectoryOffset.toNat + directorySize before) 46) =
        recordedHeader decompress turns before := by
  have room := run.directory_small below
  have fits : directorySize before + 46 ≤ directorySize turns := by
    rw [here]
    simp only [directorySize, List.map_append, List.map_cons, List.sum_append, List.sum_cons]
    omega
  have width : (recordedDirectory decompress 0 turns).length = directorySize turns := recordedDirectory_length turns 0
  have start : (lastFooter decompress footer turns).centralDirectoryOffset = lastIndex decompress 0 turns := rfl
  have directory : slice (pwrite (finalState fin decompress footer turns).fout (lastIndex decompress 0 turns).toNat
      (recordedDirectory decompress 0 turns)) ((lastIndex decompress 0 turns).toNat + directorySize before) 46 =
        slice (recordedDirectory decompress 0 turns) (directorySize before) 46 :=
    pwrite_slice_here (by rw [width]; exact fits)
  rw [run.output, start, recordedHeader, ← directory]
  congr 1
  -- the EOCD record follows the directory, or stands in front of it where `out_index` has wrapped
  have position : (lastIndex decompress 0 turns + UInt32.ofNat (directorySize turns)).toNat =
      ((lastIndex decompress 0 turns).toNat + directorySize turns) % 2 ^ 32 := by
    rw [UInt32.toNat_add, UInt32.toNat_ofNat']
    omega
  have index := (lastIndex decompress 0 turns).toNat_lt
  have written : (lastIndex decompress 0 turns).toNat + directorySize turns ≤
      (pwrite (finalState fin decompress footer turns).fout (lastIndex decompress 0 turns).toNat
        (recordedDirectory decompress 0 turns)).length := by
    rw [← width]
    exact pwrite_reaches (by intro none; rw [none, List.length_nil] at width; omega)
  by_cases wrapped : (lastIndex decompress 0 turns).toNat + directorySize turns < 2 ^ 32
  · exact pwrite_slice_before (by omega) (by omega)
  · rw [slice, slice, pwrite_drop]
    rw [CentralFooter.encode_length]
    omega

/-! ## Which fields a run keeps -/

/-- A return of 1 means that every header of the output differs from the input's
as intended. -/
def KeepsFields (Z : Zlib) (fin : Bytes) (decompress : Bool) : Prop :=
  ∀ x, zipadjust Z fin decompress = .ok x →
    ∃ footer turns, Turns Z fin decompress footer turns ∧
      x = pwrite (pwrite (finalState fin decompress footer turns).fout (lastIndex decompress 0 turns).toNat
          (recordedDirectory decompress 0 turns))
        (lastIndex decompress 0 turns + UInt32.ofNat (directorySize turns)).toNat
        (lastFooter decompress footer turns).encode ∧
      ∀ before t after, turns = before ++ t :: after →
        Intended decompress t.entry.header (recordedHeader decompress turns before)

/-- **The other fields are kept** exactly where no entry of the directory has
another flag than bit 3. -/
theorem zipadjust_keepsFields_iff : KeepsFields Z fin decompress ↔
    ∀ footer turns, Turns Z fin decompress footer turns → ∀ t ∈ turns, OnlyDescriptorFlag t.entry.header := by
  constructor
  · intro keeps footer turns run t member
    obtain ⟨footer', turns', run', -, intended⟩ := keeps _ ((zipadjust_iff Z).mpr ⟨footer, turns, run, rfl⟩)
    obtain ⟨-, rfl⟩ := run.unique run'
    obtain ⟨before, after, rfl⟩ := List.append_of_mem member
    have changed := intended before t after rfl
    obtain ⟨recorded, here⟩ := recordedHeader_eq before t after
    rw [here] at changed
    exact (intended_iff recorded _).mp changed
  · intro only x run
    obtain ⟨footer, turns, taken, rfl⟩ := (zipadjust_iff Z).mp run
    refine ⟨footer, turns, taken, taken.output, ?_⟩
    rintro before t after rfl
    obtain ⟨recorded, here⟩ := recordedHeader_eq before t after
    rw [here]
    exact (intended_iff recorded _).mpr (only footer _ taken t (by simp))

/-! ### A name in UTF-8 -/

/-- The sample entry with the UTF-8 name bit. -/
def utf8Entry : DirEntry := { sampleEntry with header := { sampleEntry.header with flags := 0x0808 } }

def utf8Zip : ZipFile := { sampleZip with entries := [utf8Entry] }

set_option maxRecDepth 4000

theorem utf8Zip_turns : Turns storedBlock.zlib utf8Zip.bytes true utf8Zip.footer
    [⟨utf8Entry, sampleLocal.encode, [42]⟩] where
  found := utf8Zip.found (by decide) (by decide) (by decide)
  offset := by decide
  inside := by decide
  directory := ⟨_, utf8Zip.directoryOf_eq (by decide), utf8Zip.ends⟩
  reads := by
    rintro t (_ | ⟨_, ⟨⟩⟩)
    exact ⟨by decide, by decide, by decide⟩

/-- `zipadjust` succeeds and clears the UTF-8 name bit. -/
theorem zipadjust_clears_flags : ¬ KeepsFields storedBlock.zlib utf8Zip.bytes true := by
  intro keeps
  obtain ⟨footer, turns, run, -, intended⟩ := keeps _ ((zipadjust_iff _).mpr ⟨_, _, utf8Zip_turns, rfl⟩)
  obtain ⟨-, rfl⟩ := utf8Zip_turns.unique run
  have flags := congrArg CentralHeader.flags (intended [] _ [] rfl)
  exact absurd flags (by decide)

end OpenDelta.Zip
