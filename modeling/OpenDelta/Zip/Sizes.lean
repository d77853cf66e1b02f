import OpenDelta.Zip.Offsets

/-!
# The sizes of deflated entries

The inflater stops where the stream does, the headers say where the next record
starts, and the code compares neither size. The output is the layout of its
records exactly if the input's sizes are right and the output ends below 4 GiB.
-/

namespace OpenDelta.Zip
open ByteFile LittleEndian

/-- A deflated entry's stream ends within its compressed size and expands to its
uncompressed size. -/
def SizesMatch (std : Inflation) (fin : Bytes) (h : CentralHeader) : Prop :=
  h.compressionMethod = 8 → ∃ w n, std.run (fin.drop (dataPosition h)) = some (w, n) ∧
    n ≤ h.sizeCompressed.toNat ∧ w.length = h.sizeUncompressed.toNat

/-- No entry's data is cut, padded or overwritten, and nothing follows the EOCD
record: the file is the layout of the entries' records. -/
def Intact (Z : Zlib) (fin : Bytes) (footer : CentralFooter) (turns : List Turn) (x : Bytes) : Prop :=
  ∃ records, RewritesAll Z fin true 0 (turns.map Turn.entry) records ∧ x = layout records (closeFooter footer records)

/-- A return of 1 means that all sizes were right. -/
def RejectsMismatch (std : Inflation) (Z : Zlib) (fin : Bytes) : Prop :=
  ∀ x, zipadjust Z fin true = .ok x →
    ∃ footer turns, Turns Z fin true footer turns ∧ (∀ t ∈ turns, SizesMatch std fin t.entry.header) ∧
      Intact Z fin footer turns x

variable {Z : Zlib} {std : Inflation} {fin : Bytes} {footer : CentralFooter} {turns : List Turn}

/-- An entry with the right sizes is inflated to what it declares. -/
theorem SizesMatch.declared (inflates : Z.Inflates std) {h : CentralHeader} (sizes : SizesMatch std fin h) :
    Declared Z fin true h := by
  intro inflated w data
  obtain ⟨w', n, run, -, length⟩ := sizes inflated.2
  rw [entryData, writeData, if_pos inflated, xdecompress_eq inflates, run] at data
  cases data
  exact length

theorem Turn.data_length (inflates : Z.Inflates std) {t : Turn} (read : t.Read Z fin true)
    (sizes : SizesMatch std fin t.entry.header) : t.data.length = (t.size true).toNat := by
  by_cases inflated : (true : Bool) ∧ t.entry.header.compressionMethod = 8
  · rw [Turn.size, Turn.central, (rewriteCentral_inflated inflated).2]
    exact sizes.declared inflates inflated _ read.data
  · rw [Turn.size, Turn.central, (rewriteCentral_copied inflated).2]
    exact entryData_copy_length Z inflated read.data

/-! ## Right sizes -/

/-- Turns with the right sizes make records. -/
theorem rewritesAll_of_reads (inflates : Z.Inflates std) : ∀ (turns : List Turn) (pos : Nat),
    (∀ t ∈ turns, t.Read Z fin true) → (∀ t ∈ turns, SizesMatch std fin t.entry.header) →
    ∃ records, RewritesAll Z fin true pos (turns.map Turn.entry) records
  | [], pos, _, _ => ⟨[], .nil pos⟩
  | t :: ts, pos, reads, sizes => by
    rw [List.forall_mem_cons] at reads sizes
    obtain ⟨r, rewrites, -⟩ := Rewrites.exists Z (UInt32.ofNat pos) reads.1.nameShort reads.1.localHeader reads.1.data
      (sizes.1.declared inflates)
    obtain ⟨rs, others⟩ := rewritesAll_of_reads inflates ts (pos + r.localBytes.length) reads.2 sizes.2
    exact ⟨r :: rs, .cons rewrites others⟩

/-- The records take the room that the headers announce. -/
theorem RewritesAll.lengths : ∀ {turns : List Turn} {pos : Nat} {records : List Record},
    RewritesAll Z fin true pos (turns.map Turn.entry) records →
    (localRegion records).length = spans true turns ∧ (centralRegion records).length = directorySize turns
  | [], _, _, .nil _ => ⟨rfl, rfl⟩
  | t :: ts, pos, r :: rs, .cons first others => by
    obtain ⟨locals, centrals⟩ := others.lengths
    have size : r.data.length = (t.size true).toNat := by
      rw [← r.dataLength, first.central, ← t.central_sizeCompressed (UInt32.ofNat pos), Turn.central]
    simp only [localRegion, centralRegion, spans, directorySize, List.flatMap_cons, List.length_append, List.map_cons,
      List.sum_cons] at locals centrals ⊢
    rw [locals, centrals, Record.localBytes_length, Record.centralBytes_length, first.name, size, Turn.span]
    exact ⟨rfl, rfl⟩

/-- Right sizes below 4 GiB give an intact output. -/
theorem Turns.intact (inflates : Z.Inflates std) (run : Turns Z fin true footer turns)
    (sizes : ∀ t ∈ turns, SizesMatch std fin t.entry.header) (fits : spans true turns + directorySize turns < 2 ^ 32) :
    Intact Z fin footer turns (finishArchive footer (finalState fin true footer turns)) := by
  obtain ⟨records, rewrites⟩ := rewritesAll_of_reads inflates turns 0 run.reads sizes
  obtain ⟨locals, centrals⟩ := rewrites.lengths
  obtain ⟨rest, listing, ends⟩ := run.directory
  have enough : (turns.map Turn.entry).length < turns.length + 1 := by
    rw [List.length_map]
    exact Nat.lt_succ_self _
  obtain ⟨st', loop, appended⟩ := adjustLoop_run Z ends (turns.map Turn.entry) records
    (startState (directoryOf fin footer) (UInt32.ofNat fin.length - footer.centralDirectoryOffset).toNat)
    (turns.length + 1) enough (startState_aligned run.inside) listing rewrites
    (show 0 + (localRegion records).length < 2 ^ 32 by omega)
  rw [adjustLoop_takeAll Z ends turns _ _ (Nat.lt_succ_self _) (startState_roomy run.inside) listing run.reads] at loop
  obtain rfl : finalState fin true footer turns = st' := Except.ok.inj loop
  exact ⟨records, rewrites, finishArchive_eq rfl rfl appended (by omega)⟩

/-! ## Positions that wrap -/

theorem UInt32.toNat_ofNat_le (n : Nat) : (UInt32.ofNat n).toNat ≤ n := by
  rw [UInt32.toNat_ofNat']
  exact Nat.mod_le _ _

/-- A turn writes nothing behind its span, wrapped or not. -/
theorem take_fout_length {st : AdjustState} {pos : Nat} {t : Turn} (position : st.outIndex = UInt32.ofNat pos)
    (short : st.fout.length ≤ pos) (data : t.data.length = (t.size true).toNat) :
    (st.take true t).fout.length ≤ pos + t.span true := by
  have name : t.entry.header.lengthFilename.toUInt32 = UInt32.ofNat t.entry.name.length := by
    rw [← t.entry.nameLength, ← UInt16.toNat_toUInt32, UInt32.ofNat_toNat]
  have atHeader := UInt32.toNat_ofNat_le pos
  have atName := UInt32.toNat_ofNat_le (pos + 30)
  have atData := UInt32.toNat_ofNat_le (pos + 30 + t.entry.name.length)
  simp only [AdjustState.take, position, name, ← UInt32.ofNat_add]
  refine Nat.le_trans (pwrite_length_le ..) (Nat.max_le.mpr ⟨Nat.le_trans (pwrite_length_le ..) (Nat.max_le.mpr
    ⟨Nat.le_trans (pwrite_length_le ..) (Nat.max_le.mpr ⟨?_, ?_⟩), ?_⟩), ?_⟩)
  · omega
  · rw [LocalHeader.encode_length, Turn.span]
    omega
  · rw [Turn.span]
    omega
  · rw [Turn.span, data]
    omega

theorem takeAll_fout_length : ∀ (turns : List Turn) (st : AdjustState) (pos : Nat),
    st.outIndex = UInt32.ofNat pos → st.fout.length ≤ pos →
    (∀ t ∈ turns, t.data.length = (t.size true).toNat) →
    (st.takeAll true turns).fout.length ≤ pos + spans true turns
  | [], _, _, _, short, _ => short
  | t :: ts, st, pos, position, short, data => by
    rw [List.forall_mem_cons] at data
    have next : (st.take true t).outIndex = UInt32.ofNat (pos + t.span true) := by
      rw [← t.next_ofNat, ← position]
      rfl
    have rest := takeAll_fout_length ts (st.take true t) _ next (take_fout_length position short data.1) data.2
    rw [spans, List.map_cons, List.sum_cons, ← spans, ← Nat.add_assoc]
    exact rest

/-- Where positions have wrapped, the output is too short for its records. -/
theorem Turns.not_intact (run : Turns Z fin true footer turns)
    (data : ∀ t ∈ turns, t.data.length = (t.size true).toNat)
    (large : 2 ^ 32 ≤ spans true turns + directorySize turns) :
    ¬ Intact Z fin footer turns (finishArchive footer (finalState fin true footer turns)) := by
  rintro ⟨records, rewrites, file⟩
  obtain ⟨locals, centrals⟩ := rewrites.lengths
  have length := congrArg List.length file
  rw [layout_length, locals, centrals, run.output] at length
  have body : (finalState fin true footer turns).fout.length ≤ 0 + spans true turns :=
    takeAll_fout_length turns _ 0 rfl (Nat.le_refl _) data
  have index := UInt32.toNat_ofNat_le (spans true turns)
  rw [← lastIndex_zero] at index
  have last := (lastIndex true 0 turns + UInt32.ofNat (directorySize turns)).toNat_lt
  have outer := pwrite_length_le (pwrite (finalState fin true footer turns).fout (lastIndex true 0 turns).toNat
    (recordedDirectory true 0 turns)) (lastFooter true footer turns).encode
    (lastIndex true 0 turns + UInt32.ofNat (directorySize turns)).toNat
  have inner := pwrite_length_le (finalState fin true footer turns).fout (recordedDirectory true 0 turns)
    (lastIndex true 0 turns).toNat
  rw [recordedDirectory_length] at inner
  rw [CentralFooter.encode_length] at outer
  omega

/-- **Size mismatches are rejected** exactly where there are none, the output
ends below 4 GiB, or something else stops the run. -/
theorem zipadjust_rejectsMismatch_iff (inflates : Z.Inflates std) : RejectsMismatch std Z fin ↔
    ∀ footer turns, Turns Z fin true footer turns →
      (∀ t ∈ turns, SizesMatch std fin t.entry.header) ∧ spans true turns + directorySize turns < 2 ^ 32 := by
  constructor
  · intro rejects footer turns run
    obtain ⟨footer', turns', run', sizes, intact⟩ := rejects _ ((zipadjust_iff Z).mpr ⟨footer, turns, run, rfl⟩)
    obtain ⟨rfl, rfl⟩ := run.unique run'
    refine ⟨sizes, Nat.lt_of_not_le fun large => ?_⟩
    exact run.not_intact (fun t member => Turn.data_length inflates (run.reads t member) (sizes t member)) large intact
  · intro right x run
    obtain ⟨footer, turns, taken, rfl⟩ := (zipadjust_iff Z).mp run
    obtain ⟨sizes, fits⟩ := right footer turns taken
    exact ⟨footer, turns, taken, sizes, taken.intact inflates sizes fits⟩

/-! ### An entry that declares what it has, and one that declares nothing -/

theorem pairZip_turns : Turns storedBlock.zlib pairZip.bytes true pairZip.footer
    [⟨sampleEntry, sampleLocal.encode, [42]⟩, ⟨extraEntry, extraLocal.encode, [1, 2, 3]⟩] where
  found := pairZip.found pairZip_last (by decide) (by rw [pairZip_length]; decide)
  offset := by decide
  inside := by
    rw [pairZip.directoryOf_eq (by rw [pairZip_length]; decide), pairZip_length]
    decide
  directory := ⟨_, pairZip.directoryOf_eq (by rw [pairZip_length]; decide), pairZip.ends⟩
  reads := by
    rintro t (_ | ⟨_, _ | ⟨_, ⟨⟩⟩⟩)
    · exact ⟨by decide, by decide, pairZip_inflated⟩
    · exact ⟨by decide, by decide, by decide⟩

set_option maxRecDepth 4000

theorem zipadjust_rejectsMismatch_sample : RejectsMismatch storedBlock storedBlock.zlib pairZip.bytes := by
  refine (zipadjust_rejectsMismatch_iff storedBlock.zlib_inflates).mpr fun footer turns run => ?_
  obtain ⟨-, rfl⟩ := pairZip_turns.unique run
  refine ⟨?_, by decide⟩
  rintro t (_ | ⟨_, _ | ⟨_, ⟨⟩⟩⟩) deflated
  · exact ⟨[42], 6, by decide, by decide, by decide⟩
  · cases deflated

/-- The entry of `sampleZip` with an uncompressed size of 0. -/
def emptyEntry : DirEntry := { sampleEntry with header := { sampleEntry.header with sizeUncompressed := 0 } }

def mismatchedZip : ZipFile := { sampleZip with entries := [emptyEntry] }

theorem mismatchedZip_turns : Turns storedBlock.zlib mismatchedZip.bytes true mismatchedZip.footer
    [⟨emptyEntry, sampleLocal.encode, [42]⟩] where
  found := mismatchedZip.found (by decide) (by decide) (by decide)
  offset := by decide
  inside := by decide
  directory := ⟨_, mismatchedZip.directoryOf_eq (by decide), mismatchedZip.ends⟩
  reads := by
    rintro t (_ | ⟨_, ⟨⟩⟩)
    exact ⟨by decide, by decide, by decide⟩

/-- The run succeeds, and the directory overwrites the entry's byte. -/
theorem zipadjust_accepts_mismatch : ¬ RejectsMismatch storedBlock storedBlock.zlib mismatchedZip.bytes := by
  intro rejects
  obtain ⟨footer, turns, run, sizes, -⟩ := rejects _ ((zipadjust_iff _).mpr ⟨_, _, mismatchedZip_turns, rfl⟩)
  obtain ⟨-, rfl⟩ := mismatchedZip_turns.unique run
  obtain ⟨w, n, inflated, -, length⟩ := sizes _ (List.mem_singleton_self _) rfl
  rw [show storedBlock.run (mismatchedZip.bytes.drop (dataPosition emptyEntry.header)) = some ([42], 6) by
    decide] at inflated
  cases inflated
  cases length

end OpenDelta.Zip
