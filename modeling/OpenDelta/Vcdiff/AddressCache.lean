import OpenDelta.Vcdiff.Integers
import Mathlib.Data.List.GetD

/-!
# The address cache

Copy addresses are written in one of several modes: as they are, as the distance
from here, as the distance from one of the last few addresses (the near ones), or
as one byte naming an address that was used before (the same ones). Encoder and
decoder keep the same cache as long as they see the same addresses, and decoding
gives the address that was encoded (`decodeAddress_encodeAddress`). The encoder
finds the shortest of the encodings the decoder would accept
(`encodeAddress_shortest`).
-/

namespace OpenDelta.Vcdiff

/-- `xd3_addr_cache` -/
structure AddrCache where
  sNear : Nat
  sSame : Nat
  nextSlot : Nat
  nearArray : List Nat
  sameArray : List Nat
  deriving DecidableEq

/-- `xd3_init_cache`, after `xd3_alloc_cache` -/
def AddrCache.init (sNear sSame : Nat) : AddrCache where
  sNear
  sSame
  nextSlot := 0
  nearArray := List.replicate sNear 0
  sameArray := List.replicate (sSame * 256) 0

/-- `xd3_update_cache` -/
def AddrCache.update (acache : AddrCache) (addr : Nat) : AddrCache :=
  let acache :=
    if acache.sNear > 0 then
      { acache with
        nearArray := acache.nearArray.set acache.nextSlot addr
        nextSlot := (acache.nextSlot + 1) % acache.sNear }
    else acache
  if acache.sSame > 0 then
    { acache with sameArray := acache.sameArray.set (addr % (acache.sSame * 256)) addr }
  else acache

/-- The best address so far, and its mode. -/
structure Best where
  d : Nat
  mode : Nat
  deriving DecidableEq

/-- `SMALLEST_INT`: one byte is enough, and the search is over. -/
def Best.smallest (best : Best) : Bool := best.d &&& 0xffffff80 = 0

/-- Another mode, if the search is not over. -/
def Best.offer (best : Best) (d mode : Nat) : Best :=
  if best.smallest then best else if d < best.d then { d, mode } else best

/-- The near modes; each is tried only at or above its address. -/
def Best.offerNear (best : Best) (addr : Nat) : Nat → List Nat → Best
  | _, [] => best
  | i, near :: nears => ((if addr ≥ near then best.offer (addr - near) (i + 2) else best).offerNear addr (i + 1) nears)

/-- The best mode but for the same ones. -/
def AddrCache.bestMode (acache : AddrCache) (addr here : Nat) : Best :=
  (({ d := addr, mode := 0 } : Best).offer (here - addr) 1).offerNear addr 0 acache.nearArray

/-- What `xd3_encode_address` writes, and the mode. -/
def AddrCache.chosen (acache : AddrCache) (addr here : Nat) : Bytes × Nat :=
  let best := acache.bestMode addr here
  if best.smallest then (emitSize best.d, best.mode)
  else
    let d := addr % (acache.sSame * 256)
    if acache.sSame > 0 ∧ acache.sameArray.getD d 0 = addr then
      ([UInt8.ofNat (d % 256)], acache.sNear + 2 + d / 256)
    else (emitSize best.d, best.mode)

/-- `XD3_CPY` -/
def xd3Cpy : UInt8 := 3

/-- `xd3_encode_address`: the bytes for the address section, the type of the
instruction, to which the mode is added, and the cache. -/
def encodeAddress (acache : AddrCache) (addr here : Nat) (type : UInt8) : Bytes × UInt8 × AddrCache :=
  ((acache.chosen addr here).1, type + .ofNat (acache.chosen addr here).2, acache.update addr)

/-- The mode of a copy. -/
def copyMode (type : UInt8) : Nat := type.toNat - xd3Cpy.toNat

/-- The address that an integer means in a mode; sums and differences are `usize_t`. -/
def AddrCache.meaning (acache : AddrCache) (here val : Nat) : Nat → Nat
  | 0 => val
  | 1 => (here + 2 ^ 32 - val) % 2 ^ 32
  | near + 2 => (val + acache.nearArray.getD near 0) % 2 ^ 32

/-- `xd3_decode_address` -/
def decodeAddress (acache : AddrCache) (here mode : Nat) (inp : Bytes) : Except Failure (Nat × Bytes × AddrCache) :=
  let sameStart := 2 + acache.sNear
  if mode < sameStart then do
    let (val, inp) ← readSize inp
    let val := acache.meaning here val mode
    return (val, inp, acache.update val)
  else
    match inp with
    | [] => .error ⟨.invalidInput, "address underflow"⟩
    | b :: inp =>
      let val := acache.sameArray.getD ((mode - sameStart) * 256 + b.toNat) 0
      .ok (val, inp, acache.update val)

/-! ## The shape of a cache -/

/-- The arrays are as long as the cache says, and hold addresses, the same ones in their slots. -/
structure AddrCache.Sound (acache : AddrCache) : Prop where
  nears : acache.nearArray.length = acache.sNear
  sames : acache.sameArray.length = acache.sSame * 256
  slot : acache.nextSlot < acache.sNear ∨ acache.sNear = 0
  nearFits : ∀ a ∈ acache.nearArray, a < 2 ^ 32
  sameFits : ∀ a ∈ acache.sameArray, a < 2 ^ 32
  placed : ∀ i, acache.sameArray.getD i 0 = 0 ∨ acache.sameArray.getD i 0 % (acache.sSame * 256) = i

theorem AddrCache.sound_init (sNear sSame : Nat) : (AddrCache.init sNear sSame).Sound where
  nears := List.length_replicate
  sames := List.length_replicate
  slot := by
    show 0 < sNear ∨ sNear = 0
    omega
  nearFits a member := by
    rw [List.eq_of_mem_replicate member]
    omega
  sameFits a member := by
    rw [List.eq_of_mem_replicate member]
    omega
  placed i := by
    show (List.replicate _ 0).getD i 0 = 0 ∨ _
    by_cases inside : i < sSame * 256 <;> simp [List.getD, inside]

theorem AddrCache.update_sizes (acache : AddrCache) (addr : Nat) :
    (acache.update addr).sNear = acache.sNear ∧ (acache.update addr).sSame = acache.sSame := by
  unfold update
  dsimp only
  split <;> split <;> exact ⟨rfl, rfl⟩

@[simp] theorem AddrCache.update_sNear (acache : AddrCache) (addr : Nat) :
    (acache.update addr).sNear = acache.sNear := (acache.update_sizes addr).1

@[simp] theorem AddrCache.update_sSame (acache : AddrCache) (addr : Nat) :
    (acache.update addr).sSame = acache.sSame := (acache.update_sizes addr).2

theorem AddrCache.Sound.update {acache : AddrCache} (sound : acache.Sound) {addr : Nat} (fits : addr < 2 ^ 32) :
    (acache.update addr).Sound := by
  have near : ∀ a ∈ acache.nearArray.set acache.nextSlot addr, a < 2 ^ 32 := by
    intro a member
    rcases List.mem_or_eq_of_mem_set member with old | rfl
    · exact sound.nearFits a old
    · exact fits
  have same : ∀ a ∈ acache.sameArray.set (addr % (acache.sSame * 256)) addr, a < 2 ^ 32 := by
    intro a member
    rcases List.mem_or_eq_of_mem_set member with old | rfl
    · exact sound.sameFits a old
    · exact fits
  have slot (pos : 0 < acache.sNear) : (acache.nextSlot + 1) % acache.sNear < acache.sNear := Nat.mod_lt _ pos
  have placed : ∀ i, (acache.sameArray.set (addr % (acache.sSame * 256)) addr).getD i 0 = 0 ∨
      (acache.sameArray.set (addr % (acache.sSame * 256)) addr).getD i 0 % (acache.sSame * 256) = i := by
    intro i
    by_cases here : addr % (acache.sSame * 256) = i
    · by_cases inside : i < acache.sameArray.length
      · right
        simp [List.getD, here, inside]
      · left
        simp [List.getD, here, inside]
    · rw [List.getD, List.getElem?_set_ne here]
      exact sound.placed i
  unfold AddrCache.update
  dsimp only
  split
  · rename_i pos
    split
    · exact ⟨by simp [sound.nears], by simp [sound.sames], .inl (slot pos), near, same, placed⟩
    · exact ⟨by simp [sound.nears], sound.sames, .inl (slot pos), near, sound.sameFits, sound.placed⟩
  · split
    · exact ⟨sound.nears, by simp [sound.sames], sound.slot, sound.nearFits, same, placed⟩
    · exact sound

/-! ## Decoding gives the address -/

section RoundTrip

variable {acache : AddrCache} {addr here : Nat}

/-- A mode and its integer stand for the address. -/
def AddrCache.Denotes (acache : AddrCache) (addr here : Nat) (best : Best) : Prop :=
  best.d ≤ addr ∧
    ((best.mode = 0 ∧ best.d = addr) ∨ (best.mode = 1 ∧ best.d = here - addr) ∨
      ∃ near, best.mode = near + 2 ∧ near < acache.sNear ∧ best.d + acache.nearArray.getD near 0 = addr)

theorem Best.offer_cases (best : Best) (d mode : Nat) :
    best.offer d mode = best ∨ (d < best.d ∧ best.offer d mode = { d, mode }) := by
  unfold offer
  split
  · exact .inl rfl
  · split
    · exact .inr ⟨by assumption, rfl⟩
    · exact .inl rfl

theorem Best.offer_le (best : Best) (d mode : Nat) : (best.offer d mode).d ≤ best.d := by
  rcases best.offer_cases d mode with same | ⟨less, taken⟩
  · exact Nat.le_of_eq (congrArg Best.d same)
  · rw [taken]
    exact Nat.le_of_lt less

theorem AddrCache.Denotes.offer {best : Best} (denotes : acache.Denotes addr here best) {d mode : Nat}
    (other : d < best.d → acache.Denotes addr here { d, mode }) : acache.Denotes addr here (best.offer d mode) := by
  rcases best.offer_cases d mode with same | ⟨less, taken⟩
  · rw [same]
    exact denotes
  · rw [taken]
    exact other less

theorem AddrCache.Denotes.offerNear {best : Best} (denotes : acache.Denotes addr here best) {i : Nat} {nears : List Nat}
    (rest : acache.nearArray.drop i = nears) (sound : acache.Sound) :
    acache.Denotes addr here (best.offerNear addr i nears) := by
  induction nears generalizing best i with
  | nil => exact denotes
  | cons near nears ih =>
    have inside : i < acache.nearArray.length := by
      by_contra outside
      rw [List.drop_of_length_le (by omega)] at rest
      cases rest
    have split := List.drop_eq_getElem_cons inside
    rw [rest, List.cons.injEq] at split
    obtain ⟨rfl, tail⟩ := split
    rw [Best.offerNear]
    refine ih ?_ tail.symm
    split
    · rename_i above
      refine denotes.offer fun less => ⟨?_, .inr (.inr ⟨i, rfl, ?_, ?_⟩)⟩
      · show addr - _ ≤ addr
        omega
      · rw [← sound.nears]
        exact inside
      · rw [List.getD_eq_getElem _ _ inside]
        show addr - _ + _ = addr
        omega
    · exact denotes

theorem AddrCache.Sound.bestMode (sound : acache.Sound) (addr here : Nat) :
    acache.Denotes addr here (acache.bestMode addr here) := by
  have first : acache.Denotes addr here { d := addr, mode := 0 } := ⟨Nat.le_refl _, .inl ⟨rfl, rfl⟩⟩
  refine AddrCache.Denotes.offerNear ?_ (List.drop_zero ..) sound
  exact first.offer fun less => ⟨Nat.le_of_lt less, .inr (.inl ⟨rfl, rfl⟩)⟩

/-- What a mode and its integer are decoded to. -/
theorem AddrCache.Denotes.decode {best : Best} (denotes : acache.Denotes addr here best) (before : addr < here)
    (fits : here < 2 ^ 32) (rest : Bytes) :
    decodeAddress acache here best.mode (emitSize best.d ++ rest) = .ok (addr, rest, acache.update addr) := by
  obtain ⟨le, meaning⟩ := denotes
  have early : best.mode < 2 + acache.sNear := by
    rcases meaning with ⟨mode, -⟩ | ⟨mode, -⟩ | ⟨near, mode, inside, -⟩ <;> omega
  have value : acache.meaning here best.d best.mode = addr := by
    rcases meaning with ⟨mode, d⟩ | ⟨mode, d⟩ | ⟨near, mode, inside, d⟩
    · rw [mode, AddrCache.meaning, d]
    · rw [mode, AddrCache.meaning]
      omega
    · rw [mode, AddrCache.meaning, d]
      omega
  simp only [decodeAddress, early, if_true, readSize_emitSize (show best.d < 2 ^ 32 by omega), bind, Except.bind, pure,
    Except.pure, value]

/-- The decoder reads the address that is written, in the mode that is chosen. -/
theorem AddrCache.Sound.decode_chosen (sound : acache.Sound) (before : addr < here) (fits : here < 2 ^ 32) (rest : Bytes) :
    decodeAddress acache here (acache.chosen addr here).2 ((acache.chosen addr here).1 ++ rest) =
      .ok (addr, rest, acache.update addr) := by
  have best := (sound.bestMode addr here).decode before fits rest
  simp only [chosen]
  split
  · exact best
  split
  · rename_i hit
    have byte : (UInt8.ofNat (addr % (acache.sSame * 256) % 256)).toNat = addr % (acache.sSame * 256) % 256 := by
      rw [UInt8.toNat_ofNat']
      omega
    have slot : (acache.sNear + 2 + addr % (acache.sSame * 256) / 256 - (2 + acache.sNear)) * 256 +
        addr % (acache.sSame * 256) % 256 = addr % (acache.sSame * 256) := by
      omega
    have late : ¬acache.sNear + 2 + addr % (acache.sSame * 256) / 256 < 2 + acache.sNear := by omega
    simp only [decodeAddress, if_neg late, List.singleton_append, byte, slot, hit.2]
  · exact best

/-- The modes are those of the cache. -/
theorem AddrCache.Sound.chosen_mode (sound : acache.Sound) (addr here : Nat) :
    (acache.chosen addr here).2 < 2 + acache.sNear + acache.sSame := by
  obtain ⟨-, meaning⟩ := sound.bestMode addr here
  have early : (acache.bestMode addr here).mode < 2 + acache.sNear := by
    rcases meaning with ⟨mode, -⟩ | ⟨mode, -⟩ | ⟨near, mode, inside, -⟩ <;> omega
  simp only [chosen]
  split
  · show (acache.bestMode addr here).mode < _
    omega
  split
  · rename_i hit
    have slot : addr % (acache.sSame * 256) < acache.sSame * 256 := Nat.mod_lt _ (by omega)
    show acache.sNear + 2 + addr % (acache.sSame * 256) / 256 < _
    omega
  · show (acache.bestMode addr here).mode < _
    omega

/-- So many modes that the type of a copy, a byte, does not go round. -/
def AddrCache.Counted (acache : AddrCache) : Prop := xd3Cpy.toNat + 2 + acache.sNear + acache.sSame ≤ 2 ^ 8

theorem encodeAddress_type (sound : acache.Sound) (counted : acache.Counted) (addr here : Nat) :
    copyMode (encodeAddress acache addr here xd3Cpy).2.1 = (acache.chosen addr here).2 := by
  have mode := sound.chosen_mode addr here
  have cpy : xd3Cpy.toNat = 3 := rfl
  have modes : 3 + 2 + acache.sNear + acache.sSame ≤ 2 ^ 8 := counted
  rw [copyMode, encodeAddress, UInt8.toNat_add, UInt8.toNat_ofNat', cpy]
  omega

/-- The decoder reads the address the encoder wrote, and comes to the same cache. -/
theorem decodeAddress_encodeAddress (sound : acache.Sound) (counted : acache.Counted) (before : addr < here)
    (fits : here < 2 ^ 32) (rest : Bytes) :
    decodeAddress acache here (copyMode (encodeAddress acache addr here xd3Cpy).2.1)
        ((encodeAddress acache addr here xd3Cpy).1 ++ rest) =
      .ok (addr, rest, (encodeAddress acache addr here xd3Cpy).2.2) := by
  rw [encodeAddress_type sound counted]
  exact sound.decode_chosen before fits rest

end RoundTrip

/-! ## The shortest encoding -/

section Shortest

variable {acache : AddrCache} {addr here : Nat}

theorem Best.smallest_iff {best : Best} (fits : best.d < 2 ^ 32) : best.smallest = true ↔ best.d < 128 := by
  rw [smallest, decide_eq_true_eq]
  exact and_mask_eq_zero (k := 7) (m := 25) fits

theorem sizeofSize_mono {d d' : Nat} (le : d ≤ d') : sizeofSize d ≤ sizeofSize d' := by
  unfold sizeofSize
  simp only [Nat.one_shiftLeft]
  split_ifs <;> omega

/-- One byte is enough, or the mode is no better. -/
def Best.Covers (best : Best) (d : Nat) : Prop := best.smallest = true ∨ best.d ≤ d

theorem Best.covers_self (best : Best) : best.Covers best.d := .inr (Nat.le_refl _)

theorem Best.Covers.offer {best : Best} {d : Nat} (covers : best.Covers d) (d' mode : Nat) :
    (best.offer d' mode).Covers d := by
  rcases covers with done | le
  · rw [Best.offer, if_pos done]
    exact .inl done
  · exact .inr (Nat.le_trans (best.offer_le d' mode) le)

theorem Best.offer_covers (best : Best) (d mode : Nat) : (best.offer d mode).Covers d := by
  unfold Best.offer
  split
  · exact .inl (by assumption)
  · split
    · exact .inr (Nat.le_refl _)
    · exact .inr (by omega)

theorem Best.Covers.offerNear {best : Best} {d : Nat} (covers : best.Covers d) (addr i : Nat) (nears : List Nat) :
    (best.offerNear addr i nears).Covers d := by
  induction nears generalizing best i with
  | nil => exact covers
  | cons near nears ih =>
    rw [Best.offerNear]
    split
    · exact ih (covers.offer _ _) _
    · exact ih covers _

theorem Best.offerNear_covers (best : Best) (i : Nat) {nears : List Nat} {near : Nat} (member : near ∈ nears)
    (above : near ≤ addr) : (best.offerNear addr i nears).Covers (addr - near) := by
  induction nears generalizing best i with
  | nil => cases member
  | cons first nears ih =>
    rw [Best.offerNear]
    rcases List.mem_cons.mp member with rfl | later
    · rw [if_pos above]
      exact (best.offer_covers _ _).offerNear _ _ _
    · split
      · exact ih _ _ later
      · exact ih _ _ later

theorem AddrCache.bestMode_covers_addr (acache : AddrCache) (addr here : Nat) :
    (acache.bestMode addr here).Covers addr :=
  ((Best.covers_self _).offer _ _).offerNear _ _ _

theorem AddrCache.bestMode_covers_here (acache : AddrCache) (addr here : Nat) :
    (acache.bestMode addr here).Covers (here - addr) := (Best.offer_covers _ _ _).offerNear _ _ _

/-- An integer that a mode of its own means is no smaller than the best. -/
theorem AddrCache.Sound.bestMode_covers (sound : acache.Sound) (before : addr < here) (within : here < 2 ^ 32)
    {mode val : Nat} (fits : val < 2 ^ 32) (early : mode < 2 + acache.sNear) (meant : acache.meaning here val mode = addr) :
    (acache.bestMode addr here).Covers val := by
  match mode with
  | 0 =>
    rw [AddrCache.meaning] at meant
    rw [meant]
    exact acache.bestMode_covers_addr addr here
  | 1 =>
    rw [AddrCache.meaning] at meant
    rw [show val = here - addr by omega]
    exact acache.bestMode_covers_here addr here
  | near + 2 =>
    have inside : near < acache.nearArray.length := by
      rw [sound.nears]
      omega
    have member := List.getElem_mem inside
    have small := sound.nearFits _ member
    rw [AddrCache.meaning, List.getD_eq_getElem _ _ inside] at meant
    by_cases above : acache.nearArray[near] ≤ addr
    · rw [show val = addr - acache.nearArray[near] by omega]
      exact Best.offerNear_covers _ _ member above
    · rcases acache.bestMode_covers_addr addr here with done | le
      · exact .inl done
      · exact .inr (by omega)

/-- No bytes that the decoder would take for the address are fewer. -/
theorem encodeAddress_shortest (sound : acache.Sound) (before : addr < here) (fits : here < 2 ^ 32) (type : UInt8)
    {mode : Nat} {bytes : Bytes} {acache' : AddrCache}
    (decoded : decodeAddress acache here mode bytes = .ok (addr, [], acache')) :
    (encodeAddress acache addr here type).1.length ≤ bytes.length := by
  have le : (acache.bestMode addr here).d ≤ addr := (sound.bestMode addr here).1
  have size : (emitSize (acache.bestMode addr here).d).length = sizeofSize (acache.bestMode addr here).d :=
    emitSize_length (by omega)
  have small (done : (acache.bestMode addr here).smallest = true) :
      (emitSize (acache.bestMode addr here).d).length = 1 := by
    have below : (acache.bestMode addr here).d < 1 <<< 7 := (Best.smallest_iff (by omega)).mp done
    rw [size, sizeofSize, if_pos below]
  by_cases early : mode < 2 + acache.sNear
  · -- The integer of a mode of its own.
    simp only [decodeAddress, if_pos early] at decoded
    cases read : readSize bytes with
    | error failure =>
      rw [read] at decoded
      cases decoded
    | ok result =>
      obtain ⟨val, rest⟩ := result
      simp only [read, bind, Except.bind, pure, Except.pure, Except.ok.injEq, Prod.mk.injEq] at decoded
      obtain ⟨meant, rfl, -⟩ := decoded
      have covers := sound.bestMode_covers before fits (readSize_lt read) early meant
      obtain ⟨number, split, terminated, rfl, -⟩ := (readInteger_ok_iff oflow32 (Nat.pow_pos (by omega))).mp read
      rw [List.append_nil] at split
      subst split
      have one := List.length_pos_iff.mpr terminated.ne_nil
      have written : (emitSize (acache.bestMode addr here).d).length ≤ bytes.length := by
        rcases covers with done | least
        · rw [small done]
          exact one
        · have shortest := emitInteger_shortest terminated
          have same := emitSize_length (readSize_lt read)
          have mono := sizeofSize_mono least
          rw [emitSize] at same
          omega
      simp only [encodeAddress, AddrCache.chosen]
      split
      · exact written
      split
      · exact one
      · exact written
  · -- The byte of a same mode: the address is in its slot.
    cases bytes with
    | nil =>
      simp only [decodeAddress, if_neg early] at decoded
      cases decoded
    | cons b inp =>
      simp only [decodeAddress, if_neg early, Except.ok.injEq, Prod.mk.injEq] at decoded
      obtain ⟨found, rfl, -⟩ := decoded
      simp only [encodeAddress, AddrCache.chosen]
      split
      · exact Nat.le_of_eq (small (by assumption))
      · rename_i large
        have pos : addr ≠ 0 := by
          rintro rfl
          exact large ((Best.smallest_iff (by omega)).mpr (by omega))
        have inside : (mode - (2 + acache.sNear)) * 256 + b.toNat < acache.sameArray.length := by
          by_contra outside
          rw [List.getD_eq_default _ _ (by omega)] at found
          exact pos found.symm
        have slot := (sound.placed ((mode - (2 + acache.sNear)) * 256 + b.toNat)).resolve_left (by omega)
        rw [found] at slot
        rw [if_pos ⟨by rw [sound.sames] at inside; omega, by rw [slot]; exact found⟩]
        exact Nat.le_refl _

end Shortest

/-! ## A run of copies -/

/-- The addresses of copies, each with the position it is used at, one after another:
the bytes of the section, the types of the copies, and the cache. -/
def encodeAddresses (acache : AddrCache) : List (Nat × Nat) → Bytes × List UInt8 × AddrCache
  | [] => ([], [], acache)
  | (addr, here) :: copies =>
    let (bytes, type, acache) := encodeAddress acache addr here xd3Cpy
    let (rest, types, acache) := encodeAddresses acache copies
    (bytes ++ rest, type :: types, acache)

/-- The addresses of copies, each from its position and its type. -/
def decodeAddresses (acache : AddrCache) : List (Nat × UInt8) → Bytes → Except Failure (List Nat × Bytes × AddrCache)
  | [], inp => .ok ([], inp, acache)
  | (here, type) :: copies, inp => do
    let (addr, inp, acache) ← decodeAddress acache here (copyMode type) inp
    let (addrs, inp, acache) ← decodeAddresses acache copies inp
    return (addr :: addrs, inp, acache)

theorem AddrCache.Counted.update {acache : AddrCache} (counted : acache.Counted) (addr : Nat) :
    (acache.update addr).Counted := by
  rw [Counted, acache.update_sNear, acache.update_sSame]
  exact counted

/-- The caches of the two sides stay the same, whatever is copied. -/
theorem decodeAddresses_encodeAddresses {acache : AddrCache} (sound : acache.Sound) (counted : acache.Counted)
    {copies : List (Nat × Nat)} (before : ∀ copy ∈ copies, copy.1 < copy.2 ∧ copy.2 < 2 ^ 32) (rest : Bytes) :
    decodeAddresses acache ((copies.map (·.2)).zip (encodeAddresses acache copies).2.1)
        ((encodeAddresses acache copies).1 ++ rest) =
      .ok (copies.map (·.1), rest, (encodeAddresses acache copies).2.2) := by
  induction copies generalizing acache with
  | nil => rfl
  | cons copy copies ih =>
    obtain ⟨addr, here⟩ := copy
    rw [List.forall_mem_cons] at before
    obtain ⟨⟨below, fits⟩, before⟩ := before
    have first := decodeAddress_encodeAddress sound counted below fits
    have sound' : (encodeAddress acache addr here xd3Cpy).2.2.Sound := sound.update (Nat.lt_trans below fits)
    have counted' : (encodeAddress acache addr here xd3Cpy).2.2.Counted := counted.update addr
    have later := ih sound' counted' before
    simp only [encodeAddresses, List.map_cons, List.zip_cons_cons, decodeAddresses, List.append_assoc, first, later, bind,
      Except.bind, pure, Except.pure]

theorem encodeAddresses_sound {acache : AddrCache} (sound : acache.Sound) {copies : List (Nat × Nat)}
    (before : ∀ copy ∈ copies, copy.1 < copy.2 ∧ copy.2 < 2 ^ 32) : (encodeAddresses acache copies).2.2.Sound := by
  induction copies generalizing acache with
  | nil => exact sound
  | cons copy copies ih =>
    obtain ⟨addr, here⟩ := copy
    rw [List.forall_mem_cons] at before
    obtain ⟨⟨below, fits⟩, before⟩ := before
    exact ih (sound.update (Nat.lt_trans below fits)) before

theorem encodeAddresses_modes {acache : AddrCache} (sound : acache.Sound) (counted : acache.Counted)
    {copies : List (Nat × Nat)} (before : ∀ copy ∈ copies, copy.1 < copy.2 ∧ copy.2 < 2 ^ 32) :
    ∀ type ∈ (encodeAddresses acache copies).2.1, copyMode type < 2 + acache.sNear + acache.sSame := by
  induction copies generalizing acache with
  | nil => exact fun type member => absurd member List.not_mem_nil
  | cons copy copies ih =>
    obtain ⟨addr, here⟩ := copy
    rw [List.forall_mem_cons] at before
    obtain ⟨⟨below, fits⟩, before⟩ := before
    have later := ih (sound.update (Nat.lt_trans below fits)) (counted.update addr) before
    rw [acache.update_sNear, acache.update_sSame] at later
    intro type member
    rcases List.mem_cons.mp member with rfl | member
    · have chosen := sound.chosen_mode addr here
      rw [← encodeAddress_type sound counted] at chosen
      exact chosen
    · exact later type member

/-- The addresses of a window come back in their modes, which the tables have, and the
caches of the two sides are the same behind them, as long as there are no more modes
than a byte has room for. -/
theorem addresses_rebuilt {sNear sSame : Nat} (counted : xd3Cpy.toNat + 2 + sNear + sSame ≤ 2 ^ 8)
    {copies : List (Nat × Nat)} (before : ∀ copy ∈ copies, copy.1 < copy.2 ∧ copy.2 < 2 ^ 32) (rest : Bytes) :
    decodeAddresses (.init sNear sSame)
        ((copies.map (·.2)).zip (encodeAddresses (.init sNear sSame) copies).2.1)
        ((encodeAddresses (.init sNear sSame) copies).1 ++ rest) =
      .ok (copies.map (·.1), rest, (encodeAddresses (.init sNear sSame) copies).2.2) ∧
    ∀ type ∈ (encodeAddresses (.init sNear sSame) copies).2.1, copyMode type < 2 + sNear + sSame :=
  ⟨decodeAddresses_encodeAddresses (AddrCache.sound_init sNear sSame) counted before rest,
    encodeAddresses_modes (AddrCache.sound_init sNear sSame) counted before⟩

theorem addresses_rebuilt_sample :
    decodeAddresses (.init 4 3)
        ((([(5, 100), (90, 120), (5, 130)] : List (Nat × Nat)).map (·.2)).zip
          (encodeAddresses (.init 4 3) [(5, 100), (90, 120), (5, 130)]).2.1)
        ((encodeAddresses (.init 4 3) [(5, 100), (90, 120), (5, 130)]).1 ++ []) =
      .ok (([(5, 100), (90, 120), (5, 130)] : List (Nat × Nat)).map (·.1), [],
        (encodeAddresses (.init 4 3) [(5, 100), (90, 120), (5, 130)]).2.2) ∧
    ∀ type ∈ (encodeAddresses (.init 4 3) [(5, 100), (90, 120), (5, 130)]).2.1, copyMode type < 2 + 4 + 3 :=
  addresses_rebuilt (by decide) (by decide) []

/-- Behind any copies, no mode of the table gives an address in fewer bytes than the
mode that is chosen. -/
theorem address_shortest (sNear sSame : Nat) {copies : List (Nat × Nat)}
    (before : ∀ copy ∈ copies, copy.1 < copy.2 ∧ copy.2 < 2 ^ 32) {addr here mode : Nat} (below : addr < here)
    (fits : here < 2 ^ 32) (type : UInt8) {bytes : Bytes} {acache' : AddrCache}
    (decoded : decodeAddress (encodeAddresses (.init sNear sSame) copies).2.2 here mode bytes = .ok (addr, [], acache')) :
    (encodeAddress (encodeAddresses (.init sNear sSame) copies).2.2 addr here type).1.length ≤ bytes.length :=
  encodeAddress_shortest (encodeAddresses_sound (AddrCache.sound_init sNear sSame) before) below fits type decoded

/-- An address that is at hand, against the same in full. -/
theorem address_shortest_sample :
    (encodeAddress (encodeAddresses (.init 4 3) [(300, 1000)]).2.2 300 2000 xd3Cpy).1.length ≤ (emitSize 300).length := by
  have fits : ∀ copy ∈ ([(300, 1000)] : List (Nat × Nat)), copy.1 < copy.2 ∧ copy.2 < 2 ^ 32 := by decide
  have read := readSize_emitSize (show 300 < 2 ^ 32 by decide) []
  rw [List.append_nil] at read
  have full (acache : AddrCache) : decodeAddress acache 2000 0 (emitSize 300) = .ok (300, [], acache.update 300) := by
    unfold decodeAddress
    dsimp only
    rw [if_pos (by omega), read]
    rfl
  exact address_shortest 4 3 fits (by decide) (by decide) xd3Cpy (full _)

end OpenDelta.Vcdiff
