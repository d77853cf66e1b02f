import OpenDelta.Zip.FixedPoint

/-!
# `MinSignAPK`

The whole-file signature stands in the archive comment. `signWholeOutputFile`
refuses a comment with an EOCD signature in it, but does not look at the EOCD
record in front of the comment, whose own fields may hold one.
-/

namespace OpenDelta.Server
open ByteFile LittleEndian Zip

/-! ## `signWholeOutputFile` -/

/-- The exceptions of `signWholeOutputFile`. -/
inductive SignError where
  | indexOutOfBounds
  | hasArchiveComment
  | signatureTooBig
  | spuriousHeader (i : Nat)
  deriving DecidableEq, Repr

/-- "signed by SignApk". -/
def message : Bytes :=
  [0x73, 0x69, 0x67, 0x6e, 0x65, 0x64, 0x20, 0x62, 0x79, 0x20, 0x53, 0x69, 0x67, 0x6e, 0x41, 0x70, 0x6b]

/-- `total_size`: message, null character, signature block and six bytes. -/
def totalSize (block : Bytes) : Nat := message.length + 1 + block.length + 6

/-- `temp`, the archive comment. -/
def archiveComment (block : Bytes) : Bytes :=
  message ++ (0 :: (block ++ (encode 2 (totalSize block - message.length - 1) ++
    (0xff :: 0xff :: encode 2 (totalSize block)))))

/-- The loop over the comment; `i` is the position of the rest. -/
def spuriousHeader : Bytes → Nat → Option Nat
  | a :: b :: c :: d :: rest, i =>
    if a = 0x50 ∧ b = 0x4b ∧ c = 0x05 ∧ d = 0x06 then some i
    else spuriousHeader (b :: c :: d :: rest) (i + 1)
  | _, _ => none

/-- The written file, for the signature block that `writeSignatureBlock` makes. -/
def signWholeOutputFile (zipData block : Bytes) : Except SignError Bytes :=
  if zipData.length < 22 then .error .indexOutOfBounds
  else if slice zipData (zipData.length - 22) 4 ≠ [0x50, 0x4b, 0x05, 0x06] then .error .hasArchiveComment
  else if 0xffff < totalSize block then .error .signatureTooBig
  else
    match spuriousHeader (archiveComment block) 0 with
    | some i => .error (.spuriousHeader i)
    | none => .ok (zipData.take (zipData.length - 2) ++ (encode 2 (totalSize block) ++ archiveComment block))

/-! ## What is signed -/

theorem archiveComment_length (block : Bytes) : (archiveComment block).length = totalSize block := by
  simp only [archiveComment, totalSize, List.length_append, List.length_cons, encode_length]
  omega

theorem magicCentralFooter_bytes : bytes32 magicCentralFooter = [0x50, 0x4b, 0x05, 0x06] := by
  decide

/-- What a signed file tells of the archive and the block. -/
theorem signWholeOutputFile_ok {zipData block file : Bytes} (signs : signWholeOutputFile zipData block = .ok file) :
    22 ≤ zipData.length ∧ FooterAt zipData (zipData.length - 22) ∧ totalSize block ≤ 0xffff ∧
      spuriousHeader (archiveComment block) 0 = none ∧
      file = zipData.take (zipData.length - 2) ++ (encode 2 (totalSize block) ++ archiveComment block) := by
  rw [signWholeOutputFile] at signs
  split at signs
  · cases signs
  · split at signs
    · cases signs
    · rename_i long footer
      split at signs
      · cases signs
      · split at signs
        · cases signs
        · cases signs
          refine ⟨by omega, ?_, by omega, ‹_›, rfl⟩
          rw [FooterAt, magicCentralFooter_bytes]
          exact Decidable.not_not.mp footer

/-- Signing puts a comment behind the archive. -/
theorem signWholeOutputFile_withComment {zipData block file : Bytes}
    (signs : signWholeOutputFile zipData block = .ok file) : file = withComment zipData (archiveComment block) := by
  obtain ⟨-, -, short, -, written⟩ := signWholeOutputFile_ok signs
  rw [written, withComment, archiveComment_length, bytes16, UInt16.toNat_ofNat_of_lt' (by simpa using Nat.lt_succ_of_le short)]

/-! ## The last EOCD signature -/

/-- The signature byte by byte. -/
theorem footerAt_iff {f : Bytes} {i : Nat} : FooterAt f i ↔
    f[i]? = some 0x50 ∧ f[i + 1]? = some 0x4b ∧ f[i + 2]? = some 0x05 ∧ f[i + 3]? = some 0x06 := by
  rw [FooterAt, magicCentralFooter_bytes, slice]
  constructor
  · intro here
    have byte : ∀ k, k < 4 → f[i + k]? = ([0x50, 0x4b, 0x05, 0x06] : Bytes)[k]? := by
      intro k inside
      rw [← here, List.getElem?_take, if_pos inside, List.getElem?_drop]
    exact ⟨byte 0 (by decide), byte 1 (by decide), byte 2 (by decide), byte 3 (by decide)⟩
  · rintro ⟨first, second, third, fourth⟩
    refine List.ext_getElem? fun k => ?_
    rw [List.getElem?_take, List.getElem?_drop]
    by_cases inside : k < 4
    · rw [if_pos inside]
      obtain rfl | rfl | rfl | rfl : k = 0 ∨ k = 1 ∨ k = 2 ∨ k = 3 := by omega
      · exact first
      · exact second
      · exact third
      · exact fourth
    · rw [if_neg inside]
      exact (List.getElem?_eq_none (by simpa using inside)).symm

theorem footerAt_cons (b : UInt8) (bs : Bytes) (j : Nat) : FooterAt (b :: bs) (j + 1) ↔ FooterAt bs j := Iff.rfl

/-- The loop finds every signature. -/
theorem spuriousHeader_none {bs : Bytes} {i : Nat} (clean : spuriousHeader bs i = none) (j : Nat) : ¬ FooterAt bs j := by
  induction bs, i using spuriousHeader.induct generalizing j with
  | case1 a b c d rest i found =>
    rw [spuriousHeader, if_pos found] at clean
    cases clean
  | case2 a b c d rest i other ih =>
    rw [spuriousHeader, if_neg other] at clean
    cases j with
    | zero =>
      intro here
      obtain ⟨first, second, third, fourth⟩ := footerAt_iff.mp here
      exact other ⟨Option.some.inj first, Option.some.inj second, Option.some.inj third, Option.some.inj fourth⟩
    | succ j => exact fun here => ih clean j ((footerAt_cons ..).mp here)
  | case3 bs i short =>
    intro here
    have long := footerAt_inside here
    rcases bs with _ | ⟨a, _ | ⟨b, _ | ⟨c, _ | ⟨d, rest⟩⟩⟩⟩
    · simp at long
    · simp at long
    · simp at long
    · simp at long
    · exact short a b c d rest rfl

/-- A signature does not reach into the comment: the comment starts with a byte
that no signature goes on with. -/
theorem not_footerAt_straddling {front : Bytes} (block : Bytes) {j : Nat} (before : j < front.length)
    (across : front.length < j + 4) : ¬ FooterAt (front ++ archiveComment block) j := by
  intro here
  obtain ⟨-, second, third, fourth⟩ := footerAt_iff.mp here
  have first : (front ++ archiveComment block)[front.length]? = some 0x73 := by
    rw [List.getElem?_append_right (Nat.le_refl _), Nat.sub_self]
    rfl
  obtain at1 | at2 | at3 : front.length = j + 1 ∨ front.length = j + 2 ∨ front.length = j + 3 := by omega
  · rw [at1, second] at first
    exact absurd first (by decide)
  · rw [at2, third] at first
    exact absurd first (by decide)
  · rw [at3, fourth] at first
    exact absurd first (by decide)

/-- The new EOCD record: twenty bytes of the old one and the length of the comment. -/
def newRecord (zipData block : Bytes) : Bytes :=
  slice zipData (zipData.length - 22) 20 ++ encode 2 (totalSize block)

theorem newRecord_length {zipData : Bytes} (block : Bytes) (long : 22 ≤ zipData.length) :
    (newRecord zipData block).length = 22 := by
  rw [newRecord, List.length_append, slice_length, encode_length]
  omega

/-- A signed file ends with its new EOCD record and the comment. -/
theorem signWholeOutputFile_record {zipData block file : Bytes} (signs : signWholeOutputFile zipData block = .ok file) :
    file = zipData.take (zipData.length - 22) ++ (newRecord zipData block ++ archiveComment block) := by
  obtain ⟨long, -, -, -, written⟩ := signWholeOutputFile_ok signs
  have cut : zipData.length - 2 = zipData.length - 22 + 20 := by omega
  rw [written, cut, List.take_add, newRecord, slice, List.append_assoc, List.append_assoc]

theorem footerAt_append_right (front f : Bytes) (j : Nat) : FooterAt (front ++ f) (front.length + j) ↔ FooterAt f j := by
  rw [FooterAt, FooterAt, slice, slice, ← List.drop_drop, List.drop_left]

theorem footerAt_append_left {f rest : Bytes} {j : Nat} (inside : j + 4 ≤ f.length) :
    FooterAt (f ++ rest) j ↔ FooterAt f j := by
  rw [FooterAt, slice_append_left inside, FooterAt]

/-- **The EOCD signature of a signed file is its last one exactly if the new
record holds no second one.** -/
theorem signWholeOutputFile_last_iff {zipData block file : Bytes} (signs : signWholeOutputFile zipData block = .ok file) :
    (FooterAt file (zipData.length - 22) ∧ NoFooterAfter file (zipData.length - 22)) ↔
      NoFooterAfter (newRecord zipData block) 0 := by
  obtain ⟨long, footer, -, clean, -⟩ := signWholeOutputFile_ok signs
  have record := newRecord_length block long
  have front : (zipData.take (zipData.length - 22)).length = zipData.length - 22 := by
    rw [List.length_take]
    omega
  have moved : ∀ j, FooterAt file (zipData.length - 22 + j) ↔
      FooterAt (newRecord zipData block ++ archiveComment block) j := by
    intro j
    have shifted := footerAt_append_right (zipData.take (zipData.length - 22))
      (newRecord zipData block ++ archiveComment block) j
    rwa [front, ← signWholeOutputFile_record signs] at shifted
  have own : FooterAt file (zipData.length - 22) := by
    have start : FooterAt (newRecord zipData block) 0 := by
      rw [newRecord, footerAt_append_left (by rw [slice_length]; omega), FooterAt, slice, slice, List.drop_zero,
        List.take_take]
      exact footer
    exact (moved 0).mpr ((footerAt_append_left (by omega)).mpr start)
  rw [and_iff_right own]
  constructor
  · intro last j positive here
    have inside := footerAt_inside here
    exact last (zipData.length - 22 + j) (by omega) ((moved j).mpr ((footerAt_append_left inside).mpr here))
  · intro last i after here
    obtain ⟨j, rfl⟩ := Nat.exists_eq_add_of_lt after
    rw [Nat.add_assoc, moved] at here
    -- in the record, across its end, or in the comment
    by_cases inside : j + 1 + 4 ≤ 22
    · exact last (j + 1) (Nat.succ_pos j) ((footerAt_append_left (by omega)).mp here)
    · by_cases across : j + 1 < 22
      · exact not_footerAt_straddling block (by omega) (by omega) here
      · obtain ⟨k, position⟩ := Nat.exists_eq_add_of_le (Nat.not_lt.mp across)
        rw [position, ← record, footerAt_append_right] at here
        exact spuriousHeader_none clean k here

/-! ## Back to the store form -/

theorem signWholeOutputFile_length {zipData block file : Bytes} (signs : signWholeOutputFile zipData block = .ok file) :
    file.length = zipData.length + totalSize block := by
  obtain ⟨long, -, -, -, written⟩ := signWholeOutputFile_ok signs
  simp only [written, List.length_append, List.length_take, encode_length, archiveComment_length]
  omega

/-- A store form, or one that was signed, which shows `zipadjust` its EOCD record:
no signature comes later, and the size is one for the `int` of the search. -/
structure Rereadable (store form : Bytes) : Prop where
  last : NoFooterAfter form (store.length - 22)
  small : form.length < 2 ^ 31 + 4

/-- A store form has an archive comment of length 0. -/
theorem withComment_nil {Z : Zlib} {fin store : Bytes} (run : zipadjust Z fin true = .ok store)
    (declared : DeclaredAll Z fin true) (small : store.length < 2 ^ 31 + 4) : withComment store [] = store := by
  obtain ⟨footer, entries, records, rest, found, -, -, -, -, rfl⟩ := zipadjust_inv Z run (by omega) declared
  rw [layout_length] at small
  have offset : (closeFooter footer records).centralDirectoryOffset.toNat = (localRegion records).length :=
    UInt32.toNat_ofNat_of_lt' (by simp only [UInt32.size]; omega)
  rw [withComment_layout (show (closeFooter footer records).signature = _ from (findFooter_some found).1) offset
    (by decide)]
  simp only [ZipFile.bytes, ZipFile.ofRecords, encodeDirectory_asEntry, layout, List.append_nil]
  rfl

/-- **`zipadjust` makes the store form of itself and of what is signed.** -/
theorem zipadjust_rereads {Z : Zlib} {official store block form : Bytes} (run : zipadjust Z official true = .ok store)
    (declared : DeclaredAll Z official true) (origin : form = store ∨ signWholeOutputFile store block = .ok form)
    (rereadable : Rereadable store form) : zipadjust Z form true = .ok store := by
  obtain ⟨last, small⟩ := rereadable
  rcases origin with rfl | signs
  · have same := withComment_nil run declared small
    have fixed := zipadjust_fixed_point Z official form [] run declared (by decide)
    rw [same] at fixed
    exact fixed small last
  · obtain ⟨-, -, short, -, -⟩ := signWholeOutputFile_ok signs
    have length := signWholeOutputFile_length signs
    have commented := signWholeOutputFile_withComment signs
    rw [length] at small
    rw [commented] at last ⊢
    have size := archiveComment_length block
    exact zipadjust_fixed_point Z official store _ run declared (by omega) (by omega) last

/-- An archive without entries. -/
def emptyArchive : Bytes := [0x50, 0x4b, 0x05, 0x06] ++ List.replicate 18 0

theorem signWholeOutputFile_empty : ∃ file, signWholeOutputFile emptyArchive [1, 2, 3] = .ok file ∧
    FooterAt file (emptyArchive.length - 22) ∧ NoFooterAfter file (emptyArchive.length - 22) :=
  ⟨_, rfl, (signWholeOutputFile_last_iff (show signWholeOutputFile emptyArchive [1, 2, 3] = .ok _ from rfl)).mpr
    (by decide)⟩

/-- The end of an archive whose directory starts at 0x06054b50. -/
def misleadingArchive : Bytes :=
  [0x50, 0x4b, 0x05, 0x06] ++ (List.replicate 12 0 ++ [0x50, 0x4b, 0x05, 0x06, 0, 0])

/-- The last EOCD signature of the signed file is the offset of its directory. -/
theorem signWholeOutputFile_misleading : ∃ file, signWholeOutputFile misleadingArchive [1, 2, 3] = .ok file ∧
    ¬ (FooterAt file (misleadingArchive.length - 22) ∧ NoFooterAfter file (misleadingArchive.length - 22)) := by
  refine ⟨_, rfl, fun last => ?_⟩
  exact last.2 (misleadingArchive.length - 22 + 16) (by decide) (by decide)

end OpenDelta.Server
