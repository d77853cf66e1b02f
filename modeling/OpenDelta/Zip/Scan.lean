import OpenDelta.Zip.Structure

/-!
# The backward search

The search takes an EOCD signature for a record when the record's offset leads
to a central header, and goes on otherwise. But the two reads behind a signature
end the call when they fail, so a false signature is passed only if a whole
record stands there and its offset leaves room for a header.
-/

namespace OpenDelta.Zip
open ByteFile LittleEndian

/-- What the search reads as a record at position `i`. -/
def footerAt (f : Bytes) (i : Nat) : CentralFooter := CentralFooter.decode (slice f i sizeofCentralFooter)

/-- Where that record says that the directory starts. -/
def directoryAt (f : Bytes) (i : Nat) : Nat := (footerAt f i).centralDirectoryOffset.toNat

/-- A central header stands at `pos`. -/
structure HeaderAt (f : Bytes) (pos : Nat) : Prop where
  inside : pos + sizeofCentralHeader ≤ f.length
  signature : word32 (slice f pos 4) = magicCentralHeader

instance (f : Bytes) (pos : Nat) : Decidable (HeaderAt f pos) :=
  decidable_of_iff (pos + sizeofCentralHeader ≤ f.length ∧ word32 (slice f pos 4) = magicCentralHeader)
    ⟨fun here => ⟨here.1, here.2⟩, fun here => ⟨here.inside, here.signature⟩⟩

/-- The signature at `i` is none of a directory: too near to the end, or its
offset leads out of the file or to something else. -/
def FalseFooter (f : Bytes) (i : Nat) : Prop :=
  f.length < i + sizeofCentralFooter ∨ f.length ≤ directoryAt f i ∨ ¬ HeaderAt f (directoryAt f i)

instance (f : Bytes) (i : Nat) : Decidable (FalseFooter f i) := inferInstanceAs (Decidable (_ ∨ _ ∨ _))

/-- Both reads behind the signature at `i` succeed. -/
structure ReadableFooter (f : Bytes) (i : Nat) : Prop where
  record : i + sizeofCentralFooter ≤ f.length
  header : directoryAt f i + sizeofCentralHeader ≤ f.length

instance (f : Bytes) (i : Nat) : Decidable (ReadableFooter f i) :=
  decidable_of_iff (i + sizeofCentralFooter ≤ f.length ∧ directoryAt f i + sizeofCentralHeader ≤ f.length)
    ⟨fun here => ⟨here.1, here.2⟩, fun here => ⟨here.record, here.header⟩⟩

/-- Every EOCD signature behind position `i` is of this kind. -/
def EachFooterAfter (f : Bytes) (i : Nat) (kind : Bytes → Nat → Prop) : Prop :=
  ∀ j, i < j → FooterAt f j → kind f j

/-- Signatures stand inside the file. -/
theorem eachFooterAfter_iff (f : Bytes) (i : Nat) (kind : Bytes → Nat → Prop) :
    (∀ j, j < f.length → i < j → FooterAt f j → kind f j) ↔ EachFooterAfter f i kind := by
  constructor
  · intro each j low here
    have inside := footerAt_inside here
    exact each j (by omega) low here
  · exact fun each j _ low here => each j low here

instance (f : Bytes) (i : Nat) (kind : Bytes → Nat → Prop) [∀ j, Decidable (kind f j)] :
    Decidable (EachFooterAfter f i kind) :=
  decidable_of_iff (∀ j, j < f.length → i < j → FooterAt f j → kind f j) (eachFooterAfter_iff f i kind)

/-! ## One position -/

section Position

variable {fin : Bytes} {i : Nat}

/-- A signature at which the second or the third read fails. -/
theorem findFooter_abort (here : FooterAt fin i) (unreadable : ¬ ReadableFooter fin i) :
    findFooter fin (i + 1) = .error .failed := by
  have inside := footerAt_inside here
  rw [findFooter, xseekread_ok inside]
  simp only [bind, Except.bind]
  rw [if_pos ((word32_eq_iff (by rw [slice_length]; omega) _).mpr here)]
  by_cases record : i + sizeofCentralFooter ≤ fin.length
  · have header : ¬ directoryAt fin i + sizeofCentralHeader ≤ fin.length :=
      fun header => unreadable ⟨record, header⟩
    rw [xseekread_ok record]
    simp only
    rw [← footerAt, ← directoryAt, xseekread_short (by decide) header]
  · rw [xseekread_short (by decide) record]

/-- A signature that leads to no central header is passed. -/
theorem findFooter_pass (here : FooterAt fin i) (readable : ReadableFooter fin i)
    (other : ¬ HeaderAt fin (directoryAt fin i)) : findFooter fin (i + 1) = findFooter fin i := by
  have inside := footerAt_inside here
  have signature : (CentralHeader.decode (slice fin (directoryAt fin i) sizeofCentralHeader)).signature ≠
      magicCentralHeader := by
    intro same
    refine other ⟨readable.header, ?_⟩
    rw [← same, header_signature]
    simp [slice, List.take_take, sizeofCentralHeader]
  rw [findFooter, xseekread_ok inside]
  simp only [bind, Except.bind]
  rw [if_pos ((word32_eq_iff (by rw [slice_length]; omega) _).mpr here), xseekread_ok readable.record]
  simp only
  rw [← footerAt, ← directoryAt, xseekread_ok readable.header]
  simp only
  rw [if_neg signature]

/-- A readable false signature leads to no central header. -/
theorem FalseFooter.other (other : FalseFooter fin i) (readable : ReadableFooter fin i) :
    ¬ HeaderAt fin (directoryAt fin i) := by
  have record := readable.record
  have header := readable.header
  rcases other with short | outside | other
  · omega
  · rw [sizeofCentralHeader] at header
    omega
  · exact other

end Position

/-! ## The whole search -/

section Search

variable {fin : Bytes} {i n : Nat}

/-- Readable false signatures are passed. -/
theorem findFooter_passes (le : i ≤ n) (inside : n + 3 ≤ fin.length)
    (others : ∀ j, i ≤ j → j < n → FooterAt fin j → FalseFooter fin j)
    (readable : ∀ j, i ≤ j → j < n → FooterAt fin j → ReadableFooter fin j) :
    findFooter fin n = findFooter fin i := by
  induction le with
  | refl => rfl
  | @step n le ih =>
    have below := ih (by omega) (fun j low high => others j low (Nat.lt_succ_of_lt high))
      fun j low high => readable j low (Nat.lt_succ_of_lt high)
    by_cases here : FooterAt fin n
    · have read := readable n le (Nat.lt_succ_self n) here
      rw [findFooter_pass here read ((others n le (Nat.lt_succ_self n) here).other read), below]
    · rw [← below]
      refine findFooter_skip (Nat.le_succ n) inside fun j low high => ?_
      obtain rfl : j = n := by omega
      exact here

/-- The first signature that is not readable ends the search. -/
theorem findFooter_fails (le : i ≤ n) (inside : n + 3 ≤ fin.length)
    (others : ∀ j, i ≤ j → j < n → FooterAt fin j → FalseFooter fin j)
    (unreadable : ∃ j, i ≤ j ∧ j < n ∧ FooterAt fin j ∧ ¬ ReadableFooter fin j) :
    findFooter fin n = .error .failed := by
  induction le with
  | refl =>
    obtain ⟨j, low, high, -⟩ := unreadable
    omega
  | @step n le ih =>
    obtain ⟨j, low, high, there, unread⟩ := unreadable
    by_cases ends : FooterAt fin n ∧ ¬ ReadableFooter fin n
    · exact findFooter_abort ends.1 ends.2
    have earlier : j ≠ n := by
      rintro rfl
      exact ends ⟨there, unread⟩
    rw [← ih (by omega) (fun j low high => others j low (Nat.lt_succ_of_lt high)) ⟨j, low, by omega, there, unread⟩]
    refine findFooter_passes (Nat.le_succ n) inside (fun k low high here => others k (by omega) high here) ?_
    intro k low high here
    obtain rfl : k = n := by omega
    exact not_not.mp fun unread => ends ⟨here, unread⟩

end Search

/-! ## The genuine record -/

namespace ZipFile

variable (z : ZipFile)

/-- `zipadjust` comes to the loop with the directory of this ZIP in its buffer. -/
structure Processed : Prop where
  found : findFooter z.bytes (searchLength (UInt32.ofNat z.bytes.length)) = .ok (some z.footer)
  position : z.footer.centralDirectoryOffset ≠ 0
  directory : xseekread z.bytes z.footer.centralDirectoryOffset.toNat
    (UInt32.ofNat z.bytes.length - z.footer.centralDirectoryOffset).toNat =
      .ok (encodeDirectory z.entries ++ (z.footer.encode ++ z.comment))

variable {z}

/-- What `zipadjust` returns is what the loop makes of the directory. -/
theorem Processed.run (processed : z.Processed) (Z : Zlib) (decompress : Bool) :
    zipadjust Z z.bytes decompress = (adjustLoop Z z.bytes decompress
      ((UInt32.ofNat z.bytes.length - z.footer.centralDirectoryOffset).toNat + 1)
      (startState (encodeDirectory z.entries ++ (z.footer.encode ++ z.comment))
        (UInt32.ofNat z.bytes.length - z.footer.centralDirectoryOffset).toNat)).map (finishArchive z.footer) := by
  rw [zipadjust, processed.found]
  simp only [bind, Except.bind]
  rw [if_neg processed.position, processed.directory]
  rfl

/-- The directory starts at a central header. -/
theorem headerAt (nonempty : z.entries ≠ []) : HeaderAt z.bytes z.footer.centralDirectoryOffset.toNat := by
  obtain ⟨e, es, entries⟩ := List.exists_cons_of_ne_nil nonempty
  have directory := z.drop_directory
  rw [entries, encodeDirectory, List.flatMap_cons, List.append_assoc] at directory
  have len := congrArg List.length directory
  simp only [List.length_drop, List.length_append, DirEntry.encode_length] at len
  refine ⟨by rw [sizeofCentralHeader]; omega, ?_⟩
  rw [slice_at (a := bytes32 e.header.signature)
    (by rw [directory, DirEntry.encode, CentralHeader.encode]; simp only [List.append_assoc]; rfl) (by simp),
    word32_bytes32, e.signature]

/-- **The search is robust** exactly against false signatures that can be read. -/
theorem processed_iff (z : ZipFile) (locals : ∀ e ∈ z.entries, e.header.offset.toNat + 30 ≤ z.body.length)
    (nonempty : z.entries ≠ []) (small : z.bytes.length < 2 ^ 31)
    (others : EachFooterAfter z.bytes z.eocd FalseFooter) :
    z.Processed ↔ EachFooterAfter z.bytes z.eocd ReadableFooter := by
  have total := z.bytes_length
  have genuine := headerAt nonempty
  have search := searchLength_eq (n := z.bytes.length) (by omega) (by omega)
  constructor
  · intro processed j low here
    by_contra unread
    have inside := footerAt_inside here
    have found := processed.found
    rw [search, findFooter_fails (i := z.eocd + 1) (by omega) (by omega) (fun j low _ => others j low)
      ⟨j, low, by omega, here, unread⟩] at found
    cases found
  · intro readable
    have record : slice z.bytes z.eocd 22 = z.footer.encode := slice_at z.drop_eocd (by simp)
    refine ⟨?_, ?_, ?_⟩
    · rw [search, findFooter_passes (i := z.eocd + 1) (by omega) (by omega) (fun j low _ => others j low)
        fun j low _ => readable j low]
      exact findFooter_last (Nat.lt_succ_self _) (by omega) (fun j low high => by omega) record z.signature
        genuine.inside genuine.signature
    · intro zero
      obtain ⟨e, es, entries⟩ := List.exists_cons_of_ne_nil nonempty
      have local' := locals e (by rw [entries]; exact List.mem_cons_self)
      have start := z.offset
      rw [zero] at start
      simp only [UInt32.toNat_zero] at start
      omega
    · have size : (UInt32.ofNat z.bytes.length).toNat = z.bytes.length :=
        UInt32.toNat_ofNat_of_lt' (by rw [UInt32.size]; omega)
      have directory := z.directoryOf_eq (by omega)
      rw [xseekread, if_pos, ← directoryOf, directory]
      rw [slice_length, UInt32.toNat_sub_of_le _ _ (by rw [UInt32.le_iff_toNat_le, size]; exact z.inside), size]
      exact Nat.min_self _

end ZipFile

/-! ### Signatures in the comment -/

theorem toNat_commentLength (comment : Bytes) (short : comment.length < 2 ^ 16) :
    (UInt16.ofNat comment.length).toNat = comment.length := UInt16.toNat_ofNat_of_lt' (by simpa using short)

/-- The sample ZIP with another comment. -/
def commentedZip (comment : Bytes) (short : comment.length < 2 ^ 16) : ZipFile where
  body := sampleZip.body
  entries := sampleZip.entries
  footer := { sampleZip.footer with lengthComment := UInt16.ofNat comment.length }
  comment := comment
  signature := rfl
  offset := sampleZip.offset
  commentLength := toNat_commentLength comment short

/-- A comment with the image of an EOCD record that leads to a local header. -/
def recordComment : Bytes := bytes32 magicCentralFooter ++ List.replicate 18 0

set_option maxRecDepth 4000

theorem processed_record : (commentedZip recordComment (by decide)).Processed :=
  (ZipFile.processed_iff (commentedZip recordComment (by decide)) (by decide) (by decide) (by decide)
    (by decide)).mpr (by decide)

/-- A comment that is the signature alone: `zipadjust` gives up. -/
theorem processed_signature :
    EachFooterAfter (commentedZip (bytes32 magicCentralFooter) (by decide)).bytes
      (commentedZip (bytes32 magicCentralFooter) (by decide)).eocd FalseFooter ∧
    ¬ (commentedZip (bytes32 magicCentralFooter) (by decide)).Processed ∧
    zipadjust storedBlock.zlib (commentedZip (bytes32 magicCentralFooter) (by decide)).bytes true = .error .failed := by
  refine ⟨by decide, fun processed => ?_, by decide⟩
  have found := processed.found
  rw [show findFooter _ _ = .error .failed by decide] at found
  cases found

end OpenDelta.Zip
