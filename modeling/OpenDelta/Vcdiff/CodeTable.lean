import OpenDelta.Vcdiff.AddressCache

/-!
# The instruction table

An opcode stands for one instruction or two, each with its size or, where the
table has 0, with a size of its own behind the opcode. The encoder finds the opcode
by arithmetic (`chooseInstruction`), the decoder looks it up in a table built from a
description (`buildCodeTable`): the entry it finds is the instruction that was
encoded (`singleCode_entry`, `doubleCode_entry`).
-/

namespace OpenDelta.Vcdiff

/-- The type of an instruction; the number of a copy is `XD3_CPY` and its mode. -/
inductive InstType where
  | noop | add | run
  | cpy (mode : Nat)
  deriving DecidableEq, Repr

/-- `xd3_dinst`, an entry of the table -/
structure Dinst where
  type1 : InstType := .noop
  size1 : UInt8 := 0
  type2 : InstType := .noop
  size2 : UInt8 := 0
  deriving DecidableEq, Repr

/-- `xd3_code_table_desc`, what the table is built from -/
structure CodeTableDesc where
  addSizes : Nat
  nearModes : Nat
  sameModes : Nat
  cpySizes : Nat
  addcopyAddMax : Nat
  addcopyNearCpyMax : Nat
  addcopySameCpyMax : Nat
  copyaddAddMax : Nat
  copyaddNearCpyMax : Nat
  copyaddSameCpyMax : Nat

/-- `MIN_MATCH` -/
def minMatch : Nat := 4

/-- `__rfc3284_code_table_desc` -/
def rfc3284CodeTableDesc : CodeTableDesc where
  addSizes := 17
  nearModes := 4
  sameModes := 3
  cpySizes := 15
  addcopyAddMax := 4
  addcopyNearCpyMax := 6
  addcopySameCpyMax := 4
  copyaddAddMax := 1
  copyaddNearCpyMax := 4
  copyaddSameCpyMax := 4

/-- `lo, …, hi`, as a loop up to `hi` has them. -/
def upTo (lo hi : Nat) : List Nat := List.range' lo (hi + 1 - lo)

/-- `xd3_build_code_table` -/
def buildCodeTable (desc : CodeTableDesc) : List Dinst :=
  let modes := List.range (2 + desc.nearModes + desc.sameModes)
  let cpyMax (near same mode : Nat) := if mode < 2 + desc.nearModes then near else same
  { type1 := .run } :: { type1 := .add } ::
  (upTo 1 desc.addSizes).map (fun size1 => { type1 := .add, size1 := .ofNat size1 }) ++
  modes.flatMap (fun mode => { type1 := .cpy mode } ::
    (List.range' minMatch desc.cpySizes).map fun size1 => { type1 := .cpy mode, size1 := .ofNat size1 }) ++
  modes.flatMap (fun mode => (upTo 1 desc.addcopyAddMax).flatMap fun size1 =>
    (upTo minMatch (cpyMax desc.addcopyNearCpyMax desc.addcopySameCpyMax mode)).map fun size2 =>
      { type1 := .add, size1 := .ofNat size1, type2 := .cpy mode, size2 := .ofNat size2 }) ++
  modes.flatMap (fun mode => (upTo minMatch (cpyMax desc.copyaddNearCpyMax desc.copyaddSameCpyMax mode)).flatMap
    fun size1 => (upTo 1 desc.copyaddAddMax).map fun size2 =>
      { type1 := .cpy mode, size1 := .ofNat size1, type2 := .add, size2 := .ofNat size2 })

/-- `xd3_rfc3284_code_table` -/
def rfc3284CodeTable : List Dinst := buildCodeTable rfc3284CodeTableDesc

/-- `xd3_rinst`, an instruction of the encoder. `xtra` is the byte of a run, and
of a copy whether it is one of the source. -/
structure Rinst where
  type : InstType
  xtra : UInt8 := 0
  code1 : UInt8 := 0
  code2 : UInt8 := 0
  pos : Nat
  size : Nat
  addr : Nat := 0
  deriving DecidableEq, Repr

/-- The code of an instruction on its own. -/
def singleCode (inst : Rinst) : UInt8 :=
  match inst.type with
  | .add => .ofNat (if inst.size ≤ 17 then 1 + inst.size else 1)
  | .cpy mode => .ofNat (if inst.size ≤ 18 ∧ 4 ≤ inst.size then 19 + 16 * mode + (inst.size - 3) else 19 + 16 * mode)
  | _ => 0

/-- `prev->size - 1`, a `usize_t` -/
def Rinst.sizeLess1 (prev : Rinst) : Nat := (prev.size + 2 ^ 32 - 1) % 2 ^ 32

/-- The code of two instructions together, where the default table has one. An `add` of
no bytes gets one too, which stands for something else. -/
def doubleCode (prev inst : Rinst) : Option UInt8 :=
  match prev.type, inst.type with
  | .cpy mode, .add => if inst.size = 1 ∧ prev.size = 4 then some (.ofNat (247 + mode)) else none
  | .add, .cpy mode =>
    if (inst.size ≤ 18 ∧ 4 ≤ inst.size) ∧ prev.size ≤ 4 then
      if inst.size ≤ 6 ∧ mode ≤ 5 then some (.ofNat (163 + mode * 12 + 3 * prev.sizeLess1 + (inst.size - 4)))
      else if inst.size = 4 ∧ 6 ≤ mode then some (.ofNat (235 + (mode - 6) * 4 + prev.sizeLess1))
      else none
    else none
  | _, _ => none

/-- `xd3_choose_instruction`, for the default table: the instruction gets its
code, and the one before it the code for both. -/
def chooseInstruction (prev : Option Rinst) (inst : Rinst) : Option Rinst × Rinst :=
  (prev.map fun prev => { prev with code2 := (doubleCode prev inst).getD prev.code2 },
    { inst with code1 := singleCode inst })

/-! ## The entries of the default table -/

theorem entry_run : rfc3284CodeTable[0]? = some { type1 := .run } := by decide

theorem entry_add : ∀ size ≤ 17, rfc3284CodeTable[1 + size]? = some { type1 := .add, size1 := .ofNat size } := by
  decide

theorem entry_cpy : ∀ mode < 9, rfc3284CodeTable[19 + 16 * mode]? = some { type1 := .cpy mode } := by decide

theorem entry_cpySize : ∀ mode < 9, ∀ size < 15, rfc3284CodeTable[19 + 16 * mode + (size + 1)]? =
    some { type1 := .cpy mode, size1 := .ofNat (size + 4) } := by
  decide

theorem entry_addcopy : ∀ mode < 6, ∀ add < 4, ∀ size < 3,
    rfc3284CodeTable[163 + mode * 12 + 3 * add + size]? =
      some { type1 := .add, size1 := .ofNat (add + 1), type2 := .cpy mode, size2 := .ofNat (size + 4) } := by
  decide

theorem entry_addcopySame : ∀ mode < 3, ∀ add < 4, rfc3284CodeTable[235 + mode * 4 + add]? =
    some { type1 := .add, size1 := .ofNat (add + 1), type2 := .cpy (mode + 6), size2 := 4 } := by
  decide

theorem entry_copyadd : ∀ mode < 9, rfc3284CodeTable[247 + mode]? =
    some { type1 := .cpy mode, size1 := 4, type2 := .add, size2 := 1 } := by
  decide

/-! ## The codes of the encoder -/

/-- The type is one the table has: not empty, and a copy in one of the nine modes. -/
def InstType.Known : InstType → Prop
  | .noop => False
  | .cpy mode => mode < 9
  | _ => True

section Codes

variable {prev inst : Rinst}

theorem ofNat_ne_zero {n : Nat} (pos : 0 < n) (small : n < 256) : UInt8.ofNat n ≠ 0 := by
  intro zero
  have := congrArg UInt8.toNat zero
  rw [UInt8.toNat_ofNat', UInt8.toNat_zero] at this
  omega

theorem toNat_ofNat {n : Nat} (small : n < 256) : (UInt8.ofNat n).toNat = n := by
  rw [UInt8.toNat_ofNat']
  omega

/-- The code of one instruction is the entry for it, with its size or with a size to read. -/
theorem singleCode_entry (known : inst.type.Known) :
    ∃ d, rfc3284CodeTable[(singleCode inst).toNat]? = some d ∧ d.type1 = inst.type ∧ d.type2 = .noop ∧
      (d.size1 = 0 ∨ (d.size1 ≠ 0 ∧ d.size1.toNat = inst.size)) := by
  unfold singleCode
  cases type : inst.type with
  | noop =>
    rw [type] at known
    exact known.elim
  | run => exact ⟨_, entry_run, rfl, rfl, .inl rfl⟩
  | add =>
    dsimp only
    split
    · rename_i immediate
      rw [toNat_ofNat (by omega)]
      refine ⟨_, entry_add _ immediate, rfl, rfl, ?_⟩
      by_cases zero : inst.size = 0
      · exact .inl (by rw [zero]; rfl)
      · exact .inr ⟨ofNat_ne_zero (by omega) (by omega), toNat_ofNat (by omega)⟩
    · exact ⟨_, entry_add 0 (by omega), rfl, rfl, .inl rfl⟩
  | cpy mode =>
    rw [type] at known
    have small : mode < 9 := known
    dsimp only
    split
    · rename_i immediate
      rw [toNat_ofNat (by omega)]
      have entry := entry_cpySize mode known (inst.size - 4) (by omega)
      rw [show inst.size - 4 + 1 = inst.size - 3 by omega, show inst.size - 4 + 4 = inst.size by omega] at entry
      exact ⟨_, entry, rfl, rfl, .inr ⟨ofNat_ne_zero (by omega) (by omega), toNat_ofNat (by omega)⟩⟩
    · rw [toNat_ofNat (by omega)]
      exact ⟨_, entry_cpy mode known, rfl, rfl, .inl rfl⟩

/-- The entry is the two instructions. -/
structure Dinst.IsPair (d : Dinst) (first second : Rinst) : Prop where
  type1 : d.type1 = first.type
  type2 : d.type2 = second.type
  size1 : d.size1 ≠ 0 ∧ d.size1.toNat = first.size
  size2 : d.size2 ≠ 0 ∧ d.size2.toNat = second.size

theorem Rinst.sizeLess1_eq (pos : 0 < prev.size) (short : prev.size ≤ 4) : prev.sizeLess1 = prev.size - 1 := by
  rw [sizeLess1]
  omega

/-- The code for two instructions is the entry for them. -/
theorem doubleCode_entry (known : inst.type.Known) (knownPrev : prev.type.Known) (pos : 0 < prev.size) {code2 : UInt8}
    (code : doubleCode prev inst = some code2) : ∃ d, rfc3284CodeTable[code2.toNat]? = some d ∧ d.IsPair prev inst := by
  have one : (1 : UInt8) ≠ 0 := by decide
  have four : (4 : UInt8) ≠ 0 := by decide
  unfold doubleCode at code
  split at code
  · rename_i mode typePrev type
    rw [typePrev] at knownPrev
    have small : mode < 9 := knownPrev
    split at code
    · rename_i sizes
      cases code
      rw [toNat_ofNat (by omega)]
      refine ⟨_, entry_copyadd mode knownPrev, ?_⟩
      exact ⟨typePrev.symm, type.symm, ⟨four, sizes.2.symm⟩, ⟨one, sizes.1.symm⟩⟩
    · cases code
  · rename_i mode typePrev type
    rw [type] at known
    have small : mode < 9 := known
    split at code
    · rename_i sizes
      rw [Rinst.sizeLess1_eq pos sizes.2] at code
      split at code
      · cases code
        rw [toNat_ofNat (by omega)]
        have entry := entry_addcopy mode (by omega) (prev.size - 1) (by omega) (inst.size - 4) (by omega)
        rw [show prev.size - 1 + 1 = prev.size by omega, show inst.size - 4 + 4 = inst.size by omega] at entry
        refine ⟨_, entry, typePrev.symm, type.symm, ?_, ?_⟩
        · exact ⟨ofNat_ne_zero pos (by omega), toNat_ofNat (by omega)⟩
        · exact ⟨ofNat_ne_zero (by omega) (by omega), toNat_ofNat (by omega)⟩
      split at code
      · rename_i same
        cases code
        rw [toNat_ofNat (by omega)]
        have entry := entry_addcopySame (mode - 6) (by omega) (prev.size - 1) (by omega)
        rw [show prev.size - 1 + 1 = prev.size by omega, show mode - 6 + 6 = mode by omega] at entry
        refine ⟨_, entry, typePrev.symm, type.symm, ?_, ?_⟩
        · exact ⟨ofNat_ne_zero pos (by omega), toNat_ofNat (by omega)⟩
        · exact ⟨four, same.1.symm⟩
      · cases code
    · cases code
  · cases code

/-- What the encoder chooses stands for what it has: the code of an instruction is its
entry, with its size or with none, where the size follows; a code for two, with the one
before, of at least one byte, is an entry that has both sizes. -/
theorem chooseInstruction_entries (known : inst.type.Known) (knownPrev : prev.type.Known) (pos : 0 < prev.size)
    (apart : prev.code2 = 0) :
    let (prev', inst') := chooseInstruction (some prev) inst
    (∃ d, rfc3284CodeTable[inst'.code1.toNat]? = some d ∧ d.type1 = inst.type ∧ d.type2 = .noop ∧
      (d.size1 = 0 ∨ (d.size1 ≠ 0 ∧ d.size1.toNat = inst.size))) ∧
    ∀ p ∈ prev', p.code2 ≠ 0 → ∃ d, rfc3284CodeTable[p.code2.toNat]? = some d ∧ d.IsPair prev inst := by
  refine ⟨singleCode_entry known, ?_⟩
  intro p chosen pair
  cases chosen
  dsimp only at pair ⊢
  cases code : doubleCode prev inst with
  | none =>
    rw [code, apart] at pair
    exact absurd rfl pair
  | some code2 => exact doubleCode_entry known knownPrev pos code

/-- An `add` of one byte and a copy of four in the second near mode have a code together. -/
theorem chooseInstruction_entries_pair :
    let (prev', inst') := chooseInstruction (some { type := .add, pos := 0, size := 1 }) { type := .cpy 3, pos := 1, size := 4 }
    (∃ d, rfc3284CodeTable[inst'.code1.toNat]? = some d ∧ d.type1 = .cpy 3 ∧ d.type2 = .noop ∧
      (d.size1 = 0 ∨ (d.size1 ≠ 0 ∧ d.size1.toNat = 4))) ∧
    ∀ p ∈ prev', p.code2 ≠ 0 → ∃ d, rfc3284CodeTable[p.code2.toNat]? = some d ∧
      d.IsPair { type := .add, pos := 0, size := 1 } { type := .cpy 3, pos := 1, size := 4 } :=
  @chooseInstruction_entries { type := .add, pos := 0, size := 1 } { type := .cpy 3, pos := 1, size := 4 }
    (show 3 < 9 by decide) trivial (by decide) rfl

end Codes

end OpenDelta.Vcdiff
