import OpenDelta.Data.Turning
import OpenDelta.Data.CopyWithin
import OpenDelta.Vcdiff.CodeTable
import OpenDelta.Vcdiff.Adler32

/-!
# Decoding a window

What `xd3_decode_emit` does with the three sections of a window: it decodes an
opcode, with the sizes and addresses of its two instructions, and puts out both.
A copy from the source needs the block of the source that it is on; while another
block is there, the decoder returns and asks for it, and a copy over several blocks
is put out block by block.

Positions, sizes and addresses are `usize_t`, of 32 bits, and so are the sums that
are compared. Bytes that would be written behind the buffer, or read from behind a
block, are `undefined`.
-/

namespace OpenDelta.Vcdiff
open ByteFile

/-- What the functions of the decoder return; `undefined` stands for a memory
access outside of a buffer. -/
inductive Answer where
  | input | output | getSrcBlk | gotHeader | winStart | winFinish
  | fails (failure : Failure)
  | undefined
  deriving DecidableEq, Repr

/-- A sum as a `usize_t`. -/
def usize (n : Nat) : Nat := n % 2 ^ 32

/-- `xd3_hinst`, one instruction of a pair -/
structure Hinst where
  type : InstType := .noop
  size : Nat := 0
  addr : Nat := 0
  deriving DecidableEq, Repr

/-- `xd3_source`: blocks of `2 ^ shiftby` bytes. `curblk` are the `onblk` bytes at hand. -/
structure Source where
  shiftby : Nat
  curblkno : Nat
  curblk : Bytes
  getblkno : Nat
  cpyoffBlocks : Nat
  cpyoffBlkoff : Nat
  deriving DecidableEq

namespace Source

def blksize (source : Source) : Nat := 1 <<< source.shiftby

def maskby (source : Source) : Nat := 1 <<< source.shiftby - 1

/-- `xd3_blksize_div` -/
def blksizeDiv (source : Source) (offset : Nat) : Nat × Nat := (offset >>> source.shiftby, offset &&& source.maskby)

/-- `xd3_blksize_add`, at the start of the copy window -/
def blksizeAdd (source : Source) (add : Nat) : Nat × Nat :=
  let blkoff := usize (source.cpyoffBlkoff + add)
  let blkdiff := blkoff >>> source.shiftby
  if blkdiff ≠ 0 then (source.cpyoffBlocks + blkdiff, blkoff &&& source.maskby) else (source.cpyoffBlocks, blkoff)

end Source

/-- The stream while a window is decoded. The sections are what is left of them,
`out` are the `avail_out` bytes at `next_out`, and `room` bytes can be written there. -/
structure Body where
  codeTable : List Dinst
  acache : AddrCache
  data : Bytes
  inst : Bytes
  addr : Bytes
  copiesTarget : Bool
  cpylen : Nat
  tgtlen : Nat
  position : Nat
  maxpos : Nat
  room : Nat
  adler32 : Option Nat
  src : Source
  current1 : Hinst
  current2 : Hinst
  out : Bytes
  deriving DecidableEq

/-! ## Parsing -/

/-- The size from the table, or one from the section. -/
def halfSize (b : Body) (inst : Hinst) : Except Failure (Nat × Bytes) :=
  if inst.size = 0 then readSize b.inst else .ok (inst.size, b.inst)

/-- The address of a copy, which lies before the position, and a copy that starts
in the copy window within it. -/
def halfAddr (b : Body) (inst : Hinst) (size : Nat) : Except Failure (Nat × Bytes × AddrCache) :=
  match inst.type with
  | .cpy mode => do
    let (address, addr, acache) ← decodeAddress b.acache b.position mode b.addr
    if address ≥ b.position then .error ⟨.invalidInput, "address too large"⟩
    else if address < b.cpylen ∧ usize (address + size) > b.cpylen then .error ⟨.invalidInput, "size too large"⟩
    else return (address, addr, acache)
  | _ => .ok (inst.addr, b.addr, b.acache)

/-- `xd3_decode_parse_halfinst`; after a failure the stream is not used. -/
def parseHalfinst (b : Body) (inst : Hinst) : Except Failure (Hinst × Body) := do
  let (size, insts) ← halfSize b inst
  let (address, addr, acache) ← halfAddr b inst size
  if usize (b.position + size) > b.maxpos then .error ⟨.invalidInput, "size too large"⟩
  else
    return ({ inst with size, addr := address },
      { b with inst := insts, addr, acache, position := usize (b.position + size) })

/-- The parsing of an instruction that is there. -/
def parseUnlessNoop (b : Body) (inst : Hinst) : Except Failure (Hinst × Body) :=
  if inst.type = .noop then .ok (inst, b) else parseHalfinst b inst

/-- `xd3_decode_instruction` -/
def decodeInstruction (b : Body) : Except Failure Body :=
  match b.inst with
  | [] => .error ⟨.invalidInput, "instruction underflow"⟩
  | code :: insts => do
    let d := b.codeTable.getD code.toNat {}
    let b := { b with inst := insts }
    let (current1, b) ← parseUnlessNoop b { type := d.type1, size := d.size1.toNat }
    let (current2, b) ← parseUnlessNoop b { type := d.type2, size := d.size2.toNat }
    return { b with current1, current2 }

/-! ## Output -/

/-- What putting out an instruction comes to: what is left of it. -/
inductive Output where
  | goes (inst : Hinst) (b : Body)
  | stops (answer : Answer) (b : Body)

/-- The instruction, when it is through. -/
def Hinst.done (inst : Hinst) : Hinst := { inst with type := .noop, size := 0 }

/-- A part of a copy is put out. -/
def putOut (b : Body) (inst : Hinst) (bytes : Bytes) : Output :=
  if b.out.length + bytes.length ≤ b.room then .goes inst { b with out := b.out ++ bytes } else .stops .undefined b

/-- The bytes of a copy within the target, one by one. -/
def copyTarget (b : Body) (inst : Hinst) : Output :=
  if b.out.length + inst.size ≤ b.room then
    match copyWithin b.out (inst.addr - b.cpylen) inst.size with
    | some out => .goes inst.done { b with out }
    | none => .stops .undefined b
  else .stops .undefined b

/-- How much of a copy the block has, and what is left of the copy. -/
def Source.part (source : Source) (blkoff : Nat) (inst : Hinst) : Nat × Hinst :=
  if usize (blkoff + inst.size) ≤ source.blksize then (inst.size, inst.done)
  else
    let take := source.blksize - blkoff
    (take, { inst with size := inst.size - take, addr := inst.addr + take })

/-- A copy from the source, as far as the block goes. -/
def copySource (b : Body) (inst : Hinst) : Output :=
  let (block, blkoff) := b.src.blksizeAdd inst.addr
  if block ≠ b.src.curblkno then .stops .getSrcBlk { b with src := { b.src with getblkno := block } }
  else if b.src.curblk.length ≠ b.src.blksize ∧ usize (blkoff + inst.size) > b.src.curblk.length then
    .stops (.fails ⟨.invalidInput, "source file too short"⟩) b
  else
    let part := b.src.part blkoff inst
    if blkoff + part.1 ≤ b.src.curblk.length then putOut b part.2 (slice b.src.curblk blkoff part.1)
    else .stops .undefined b

/-- `xd3_decode_output_halfinst` -/
def outputHalfinst (b : Body) (inst : Hinst) : Output :=
  match inst.type with
  | .noop => .goes inst b
  | .run =>
    match b.data with
    | [] => .stops (.fails ⟨.invalidInput, "data underflow"⟩) b
    | value :: data =>
      if b.out.length + inst.size ≤ b.room then
        .goes { inst with type := .noop } { b with data, out := b.out ++ List.replicate inst.size value }
      else .stops .undefined b
  | .add =>
    if b.data.length < inst.size then .stops (.fails ⟨.invalidInput, "data underflow"⟩) b
    else putOut { b with data := b.data.drop inst.size } { inst with type := .noop } (b.data.take inst.size)
  | .cpy _ =>
    if inst.addr < b.cpylen then
      if b.copiesTarget then .stops (.fails ⟨.unimplemented, "VCD_TARGET not implemented"⟩) b
      else copySource b inst
    else copyTarget b inst

/-- The checksum of the output. An `unsigned long` of more than 32 bits gives the
same (`adler32_eq`). -/
def checksum (out : Bytes) : Nat := adler32 32 1 out

/-- The checks behind the last instruction. -/
def finishEmit (b : Body) : Answer :=
  if b.out.length ≠ b.tgtlen then .fails ⟨.invalidInput, "wrong window length"⟩
  else if b.data ≠ [] then .fails ⟨.invalidInput, "extra data section"⟩
  else if b.addr ≠ [] then .fails ⟨.invalidInput, "extra address section"⟩
  else if b.adler32.any (· ≠ checksum b.out) then .fails ⟨.invalidInput, "target window checksum mismatch"⟩
  else .output

/-- One turn of the loops of `xd3_decode_emit`: the next opcode, when both
instructions are through, or a part of the first or the second. -/
def emitTurn (b : Body) : Turn Body (Answer × Body) :=
  if b.current1.type = .noop ∧ b.current2.type = .noop then
    if b.inst = [] then .done (finishEmit b, b)
    else
      match decodeInstruction b with
      | .ok b => .again b
      | .error failure => .done (.fails failure, b)
  else if b.current1.type ≠ .noop then
    match outputHalfinst b b.current1 with
    | .goes inst b => .again { b with current1 := inst }
    | .stops answer b => .done (answer, b)
  else
    match outputHalfinst b b.current2 with
    | .goes inst b => .again { b with current2 := inst }
    | .stops answer b => .done (answer, b)

/-! ## The loop ends -/

section Ending

theorem Source.blksize_pos (source : Source) : 0 < source.blksize := by
  rw [blksize, Nat.one_shiftLeft]
  exact Nat.pow_pos (by omega)

theorem Source.and_maskby (source : Source) (n : Nat) : n &&& source.maskby = n % source.blksize := by
  rw [maskby, blksize, Nat.one_shiftLeft]
  exact Nat.and_two_pow_sub_one_eq_mod n _

theorem Source.shiftRight_shiftby (source : Source) (n : Nat) : n >>> source.shiftby = n / source.blksize := by
  rw [blksize, Nat.one_shiftLeft, Nat.shiftRight_eq_div_pow]

/-- The offset of a copy is one on its block. -/
theorem Source.blksizeAdd_eq (source : Source) (add : Nat) :
    source.blksizeAdd add =
      (source.cpyoffBlocks + usize (source.cpyoffBlkoff + add) / source.blksize,
        usize (source.cpyoffBlkoff + add) % source.blksize) := by
  rw [blksizeAdd, source.shiftRight_shiftby, source.and_maskby]
  split
  · rfl
  · rename_i none
    have zero := not_not.mp none
    have small := (Nat.div_eq_zero_iff.mp zero).resolve_left (Nat.ne_of_gt source.blksize_pos)
    rw [zero, Nat.mod_eq_of_lt small]
    rfl

/-- What is left to do of an instruction. -/
def Hinst.weight (inst : Hinst) : Nat := if inst.type = .noop then 0 else 2 * inst.size + 2

@[simp] theorem Hinst.weight_noop {inst : Hinst} (noop : inst.type = .noop) : inst.weight = 0 := if_pos noop

theorem Hinst.weight_of_ne {inst : Hinst} (ne : inst.type ≠ .noop) : inst.weight = 2 * inst.size + 2 := if_neg ne

theorem Hinst.weight_lt {inst : Hinst} (fits : inst.size < 2 ^ 32) : inst.weight < 2 ^ 34 := by
  rw [weight]
  split <;> omega

/-- What is left to do of a window. -/
def Body.rank (b : Body) : Nat := 2 ^ 36 * b.inst.length + b.current1.weight + b.current2.weight

theorem bind_ok {ε α β : Type} {x : Except ε α} {f : α → Except ε β} {r : β} (ok : (x >>= f) = .ok r) :
    ∃ a, x = .ok a ∧ f a = .ok r := by
  cases x with
  | error failure => cases ok
  | ok a => exact ⟨a, rfl, ok⟩

/-- What parsing leaves as it is, and what it bounds. -/
structure Parsed (b : Body) (type : InstType) (inst' : Hinst) (b' : Body) : Prop where
  type : inst'.type = type
  size : inst'.size < 2 ^ 32
  shorter : b'.inst.length ≤ b.inst.length

theorem parseHalfinst_parsed {b b' : Body} {inst inst' : Hinst} (small : inst.size < 2 ^ 32)
    (parsed : parseHalfinst b inst = .ok (inst', b')) : Parsed b inst.type inst' b' := by
  obtain ⟨⟨size, insts⟩, sized, parsed⟩ := bind_ok parsed
  obtain ⟨⟨address, addr, acache⟩, -, parsed⟩ := bind_ok parsed
  dsimp only at parsed
  have bounds : size < 2 ^ 32 ∧ insts.length ≤ b.inst.length := by
    unfold halfSize at sized
    split at sized
    · exact ⟨readSize_lt sized, Nat.le_of_lt (readSize_shorter sized)⟩
    · cases sized
      exact ⟨small, Nat.le_refl _⟩
  split at parsed
  · cases parsed
  · cases parsed
    exact ⟨rfl, bounds.1, bounds.2⟩

theorem parseUnlessNoop_parsed {b b' : Body} {inst inst' : Hinst} (small : inst.size < 2 ^ 32)
    (parsed : parseUnlessNoop b inst = .ok (inst', b')) : Parsed b inst.type inst' b' := by
  rw [parseUnlessNoop] at parsed
  split at parsed
  · cases parsed
    exact ⟨rfl, small, Nat.le_refl _⟩
  · exact parseHalfinst_parsed small parsed

theorem decodeInstruction_rank {b b' : Body} (noop1 : b.current1.type = .noop) (noop2 : b.current2.type = .noop)
    (decoded : decodeInstruction b = .ok b') : b'.rank < b.rank := by
  unfold decodeInstruction at decoded
  split at decoded
  · cases decoded
  · rename_i code insts eq
    have byte (size : UInt8) : size.toNat < 2 ^ 32 := Nat.lt_trans size.toNat_lt (by omega)
    obtain ⟨⟨current1, b1⟩, first, decoded⟩ := bind_ok decoded
    obtain ⟨⟨current2, b2⟩, second, decoded⟩ := bind_ok decoded
    cases decoded
    obtain ⟨-, size1, shorter1⟩ := parseUnlessNoop_parsed (byte _) first
    obtain ⟨-, size2, shorter2⟩ := parseUnlessNoop_parsed (byte _) second
    have weight1 := Hinst.weight_lt size1
    have weight2 := Hinst.weight_lt size2
    simp only [Body.rank, Hinst.weight_noop noop1, Hinst.weight_noop noop2, eq, List.length_cons]
    dsimp only at shorter1 shorter2
    omega

/-- What putting out a part leaves as it is; the instruction gets shorter. -/
structure Shortened (b : Body) (inst inst' : Hinst) (b' : Body) : Prop where
  weight : inst'.weight < inst.weight
  inst : b'.inst = b.inst
  current1 : b'.current1 = b.current1
  current2 : b'.current2 = b.current2

theorem putOut_goes {b b' : Body} {left left' : Hinst} {bytes : Bytes} (goes : putOut b left bytes = .goes left' b') :
    left' = left ∧ b' = { b with out := b.out ++ bytes } := by
  unfold putOut at goes
  split at goes
  · cases goes
    exact ⟨rfl, rfl⟩
  · cases goes

theorem copyTarget_shortened {b b' : Body} {inst inst' : Hinst} (ne : inst.type ≠ .noop)
    (goes : copyTarget b inst = .goes inst' b') : Shortened b inst inst' b' := by
  unfold copyTarget at goes
  split at goes
  · split at goes
    · cases goes
      refine ⟨?_, rfl, rfl, rfl⟩
      rw [Hinst.weight_noop rfl, Hinst.weight_of_ne ne]
      omega
    · cases goes
  · cases goes

theorem Source.part_weight (source : Source) {blkoff : Nat} {inst : Hinst} (ne : inst.type ≠ .noop)
    (inside : blkoff < source.blksize) : (source.part blkoff inst).2.weight < inst.weight := by
  rw [part, Hinst.weight_of_ne ne]
  split
  · rw [Hinst.weight_noop rfl]
    omega
  · have sum : usize (blkoff + inst.size) ≤ blkoff + inst.size := Nat.mod_le _ _
    dsimp only
    rw [Hinst.weight_of_ne (by exact ne)]
    dsimp only
    omega

theorem copySource_shortened {b b' : Body} {inst inst' : Hinst} (ne : inst.type ≠ .noop)
    (goes : copySource b inst = .goes inst' b') : Shortened b inst inst' b' := by
  have inside : (b.src.blksizeAdd inst.addr).2 < b.src.blksize := by
    rw [b.src.blksizeAdd_eq]
    exact Nat.mod_lt _ b.src.blksize_pos
  unfold copySource at goes
  dsimp only at goes
  split at goes
  · cases goes
  split at goes
  · cases goes
  split at goes
  · obtain ⟨rfl, rfl⟩ := putOut_goes goes
    exact ⟨b.src.part_weight ne inside, rfl, rfl, rfl⟩
  · cases goes

theorem outputHalfinst_shortened {b b' : Body} {inst inst' : Hinst} (ne : inst.type ≠ .noop)
    (goes : outputHalfinst b inst = .goes inst' b') : Shortened b inst inst' b' := by
  have through : ({ inst with type := .noop } : Hinst).weight < inst.weight := by
    rw [Hinst.weight_noop rfl, Hinst.weight_of_ne ne]
    omega
  unfold outputHalfinst at goes
  split at goes
  · exact absurd (by assumption) ne
  · split at goes
    · cases goes
    split at goes
    · cases goes
      exact ⟨through, rfl, rfl, rfl⟩
    · cases goes
  · split at goes
    · cases goes
    · obtain ⟨rfl, rfl⟩ := putOut_goes goes
      exact ⟨through, rfl, rfl, rfl⟩
  · split at goes
    · split at goes
      · cases goes
      · exact copySource_shortened ne goes
    · exact copyTarget_shortened ne goes

theorem emitTurn_rank {b b' : Body} (turned : emitTurn b = .again b') : b'.rank < b.rank := by
  unfold emitTurn at turned
  split at turned
  · rename_i both
    split at turned
    · cases turned
    split at turned
    · cases turned
      exact decodeInstruction_rank both.1 both.2 (by assumption)
    · cases turned
  split at turned
  · split at turned
    · rename_i ne _ _ _ goes
      cases turned
      obtain ⟨weight, inst, -, current2⟩ := outputHalfinst_shortened ne goes
      simp only [Body.rank, inst, current2]
      omega
    · cases turned
  · split at turned
    · rename_i both first _ _ _ goes
      have ne : b.current2.type ≠ .noop := fun eq => both ⟨not_not.mp first, eq⟩
      cases turned
      obtain ⟨weight, inst, current1, -⟩ := outputHalfinst_shortened ne goes
      simp only [Body.rank, inst, current1]
      omega
    · cases turned

end Ending

/-- `xd3_decode_emit` -/
def decodeEmit (b : Body) : Answer × Body := untilDone emitTurn Body.rank emitTurn_rank b

/-! ## What it returns -/

section Returning

/-- The returns in the middle of a window. -/
inductive Stopped : Answer → Prop where
  | getSrcBlk : Stopped .getSrcBlk
  | undefined : Stopped .undefined
  | fails (failure : Failure) : Stopped (.fails failure)

/-- The returns of `xd3_decode_emit`. -/
inductive Emitted : Answer → Prop where
  | output : Emitted .output
  | stopped {answer : Answer} : Stopped answer → Emitted answer

theorem finishEmit_emitted (b : Body) : Emitted (finishEmit b) := by
  unfold finishEmit
  split
  · exact .stopped (.fails _)
  split
  · exact .stopped (.fails _)
  split
  · exact .stopped (.fails _)
  split
  · exact .stopped (.fails _)
  · exact .output

variable {b b' : Body} {inst : Hinst} {answer : Answer}

theorem putOut_stopped {bytes : Bytes} (stops : putOut b inst bytes = .stops answer b') : Stopped answer := by
  unfold putOut at stops
  split at stops
  · cases stops
  · cases stops
    exact .undefined

theorem copyTarget_stopped (stops : copyTarget b inst = .stops answer b') : Stopped answer := by
  unfold copyTarget at stops
  split at stops
  · split at stops
    · cases stops
    · cases stops
      exact .undefined
  · cases stops
    exact .undefined

theorem copySource_stopped (stops : copySource b inst = .stops answer b') : Stopped answer := by
  unfold copySource at stops
  dsimp only at stops
  split at stops
  · cases stops
    exact .getSrcBlk
  split at stops
  · cases stops
    exact .fails _
  split at stops
  · exact putOut_stopped stops
  · cases stops
    exact .undefined

theorem outputHalfinst_stopped (stops : outputHalfinst b inst = .stops answer b') : Stopped answer := by
  unfold outputHalfinst at stops
  split at stops
  · cases stops
  · split at stops
    · cases stops
      exact .fails _
    split at stops
    · cases stops
    · cases stops
      exact .undefined
  · split at stops
    · cases stops
      exact .fails _
    · exact putOut_stopped stops
  · split at stops
    · split at stops
      · cases stops
        exact .fails _
      · exact copySource_stopped stops
    · exact copyTarget_stopped stops

theorem decodeEmit_emitted (b : Body) : Emitted (decodeEmit b).1 := by
  have comes : Comes emitTurn b (decodeEmit b) := comes_untilDone b
  refine @Comes.invariant _ _ _ _ _ (fun _ => True) (fun returned => Emitted returned.1) comes trivial ?_
  intro b _
  unfold emitTurn
  split
  · split
    · exact finishEmit_emitted b
    split
    · trivial
    · exact .stopped (.fails _)
  split
  · split
    · trivial
    · exact .stopped (outputHalfinst_stopped (by assumption))
  · split
    · trivial
    · exact .stopped (outputHalfinst_stopped (by assumption))

/-! ## What it leaves -/

/-- What putting out a window does not change, and the bytes that it adds. -/
structure Onward (b b' : Body) : Prop where
  tgtlen : b'.tgtlen = b.tgtlen
  room : b'.room = b.room
  adler32 : b'.adler32 = b.adler32
  out : b.out <+: b'.out
  within : b.out.length ≤ b.room → b'.out.length ≤ b'.room

theorem Onward.refl (b : Body) : Onward b b := ⟨rfl, rfl, rfl, List.prefix_refl _, id⟩

theorem Onward.trans {mid : Body} (first : Onward b mid) (second : Onward mid b') : Onward b b' where
  tgtlen := second.tgtlen.trans first.tgtlen
  room := second.room.trans first.room
  adler32 := second.adler32.trans first.adler32
  out := first.out.trans second.out
  within := second.within ∘ first.within

theorem parseUnlessNoop_onward {inst' : Hinst} (parsed : parseUnlessNoop b inst = .ok (inst', b')) : Onward b b' := by
  unfold parseUnlessNoop at parsed
  split at parsed
  · cases parsed
    exact .refl b
  · obtain ⟨⟨size, insts⟩, -, parsed⟩ := bind_ok parsed
    obtain ⟨⟨address, addr, acache⟩, -, parsed⟩ := bind_ok parsed
    dsimp only at parsed
    split at parsed
    · cases parsed
    · cases parsed
      exact ⟨rfl, rfl, rfl, List.prefix_refl _, id⟩

theorem decodeInstruction_onward (decoded : decodeInstruction b = .ok b') : Onward b b' := by
  unfold decodeInstruction at decoded
  split at decoded
  · cases decoded
  · obtain ⟨⟨current1, b1⟩, first, decoded⟩ := bind_ok decoded
    obtain ⟨⟨current2, b2⟩, second, decoded⟩ := bind_ok decoded
    cases decoded
    have onward := (parseUnlessNoop_onward first).trans (parseUnlessNoop_onward second)
    exact ⟨onward.tgtlen, onward.room, onward.adler32, onward.out, onward.within⟩

/-- What an instruction has been put out to, or stopped with. -/
def Output.body : Output → Body
  | .goes _ b => b
  | .stops _ b => b

theorem putOut_onward (b : Body) (inst : Hinst) (bytes : Bytes) : Onward b (putOut b inst bytes).body := by
  unfold putOut
  split
  · rename_i fits
    refine ⟨rfl, rfl, rfl, List.prefix_append _ _, fun _ => ?_⟩
    show (b.out ++ bytes).length ≤ b.room
    rwa [List.length_append]
  · exact .refl b

theorem copyTarget_onward (b : Body) (inst : Hinst) : Onward b (copyTarget b inst).body := by
  unfold copyTarget
  split
  · rename_i fits
    split
    · rename_i out copied
      refine ⟨rfl, rfl, rfl, copyWithin_prefix copied, fun _ => ?_⟩
      show out.length ≤ b.room
      rwa [copyWithin_length copied]
    · exact .refl b
  · exact .refl b

theorem copySource_onward (b : Body) (inst : Hinst) : Onward b (copySource b inst).body := by
  unfold copySource
  dsimp only
  split
  · exact ⟨rfl, rfl, rfl, List.prefix_refl _, id⟩
  split
  · exact .refl b
  split
  · exact putOut_onward b _ _
  · exact .refl b

theorem outputHalfinst_onward (b : Body) (inst : Hinst) : Onward b (outputHalfinst b inst).body := by
  unfold outputHalfinst
  split
  · exact .refl b
  · split
    · exact .refl b
    split
    · rename_i value data eq fits
      refine ⟨rfl, rfl, rfl, List.prefix_append _ _, fun _ => ?_⟩
      show (b.out ++ List.replicate inst.size value).length ≤ b.room
      rwa [List.length_append, List.length_replicate]
    · exact .refl b
  · split
    · exact .refl b
    · have onward := putOut_onward { b with data := b.data.drop inst.size } { inst with type := .noop } (b.data.take inst.size)
      exact ⟨onward.tgtlen, onward.room, onward.adler32, onward.out, onward.within⟩
  · split
    · split
      · exact .refl b
      · exact copySource_onward b inst
    · exact copyTarget_onward b inst

/-- What is checked of a window. -/
structure Accepted (b : Body) : Prop where
  length : b.out.length = b.tgtlen
  data : b.data = []
  addr : b.addr = []
  adler32 : ∀ sum, b.adler32 = some sum → sum = checksum b.out

theorem finishEmit_output (b : Body) (accepted : finishEmit b = .output) : Accepted b := by
  unfold finishEmit at accepted
  split at accepted
  · cases accepted
  split at accepted
  · cases accepted
  split at accepted
  · cases accepted
  split at accepted
  · cases accepted
  · rename_i length data addr sums
    refine ⟨not_not.mp length, not_not.mp data, not_not.mp addr, fun sum eq => ?_⟩
    rw [eq] at sums
    simpa using sums

/-- What a turn leads to, as far as the window is concerned. -/
theorem emitTurn_onward (start b : Body) (onward : Onward start b) :
    (emitTurn b).Holds (Onward start) fun returned =>
      Onward start returned.2 ∧ (returned.1 = .output → returned.2.inst = [] ∧ Accepted returned.2) := by
  have stopped {inst : Hinst} {answer : Answer} {b' : Body} (stops : outputHalfinst b inst = .stops answer b') :
      Onward start b' ∧ (answer = .output → b'.inst = [] ∧ Accepted b') := by
    have further := outputHalfinst_onward b inst
    rw [stops] at further
    refine ⟨onward.trans further, fun output => ?_⟩
    subst output
    cases outputHalfinst_stopped stops
  unfold emitTurn
  split
  · split
    · rename_i none
      exact ⟨onward, fun output => ⟨none, finishEmit_output b output⟩⟩
    split
    · rename_i decoded
      exact onward.trans (decodeInstruction_onward decoded)
    · exact ⟨onward, nofun⟩
  split
  · split
    · rename_i goes
      have further := outputHalfinst_onward b b.current1
      rw [goes] at further
      obtain ⟨tgtlen, room, adler32, out, within⟩ := onward.trans further
      exact ⟨tgtlen, room, adler32, out, within⟩
    · rename_i stops
      exact stopped stops
  · split
    · rename_i goes
      have further := outputHalfinst_onward b b.current2
      rw [goes] at further
      obtain ⟨tgtlen, room, adler32, out, within⟩ := onward.trans further
      exact ⟨tgtlen, room, adler32, out, within⟩
    · rename_i stops
      exact stopped stops

/-- A window that is put out has the length it says and the checksum it gives,
behind whatever was put out before, within the room there is; all three sections
are used up. -/
theorem decodeEmit_onward (b : Body) :
    Onward b (decodeEmit b).2 ∧
      ((decodeEmit b).1 = .output → (decodeEmit b).2.inst = [] ∧ Accepted (decodeEmit b).2) := by
  have comes : Comes emitTurn b (decodeEmit b) := comes_untilDone b
  exact comes.invariant (.refl b) (emitTurn_onward b)

/-- A window that carries the checksum of what it should be, and comes out wrong in
one byte, or in two that are near each other, is refused. -/
theorem decodeEmit_notices {right : Bytes} (given : b.adler32 = some (checksum right))
    (garbled : Garbled right (decodeEmit b).2.out) : (decodeEmit b).1 ≠ .output := by
  intro output
  obtain ⟨onward, leaves⟩ := decodeEmit_onward b
  obtain ⟨-, accepted⟩ := leaves output
  exact adler32_detects (by decide) garbled (accepted.adler32 _ (onward.adler32.trans given))

/-- An instruction that adds three bytes of which the last is wrong. -/
def addingBody : Body where
  codeTable := [{ type1 := .add, size1 := 3 }]
  acache := .init 0 0
  data := [1, 2, 4]
  inst := [0]
  addr := []
  copiesTarget := false
  cpylen := 0
  tgtlen := 3
  position := 0
  maxpos := 3
  room := 3
  adler32 := some (checksum [1, 2, 3])
  src := { shiftby := 0, curblkno := 0, curblk := [], getblkno := 0, cpyoffBlocks := 0, cpyoffBlkoff := 0 }
  current1 := {}
  current2 := {}
  out := []

theorem decodeEmit_notices_added : (decodeEmit addingBody).1 ≠ .output := by
  have out : (decodeEmit addingBody).2.out = [1, 2, 4] := by
    let decoded : Body := { addingBody with inst := [], position := 3, current1 := { type := .add, size := 3 } }
    let added : Body := { decoded with data := [], out := [1, 2, 4], current1 := { type := .noop, size := 3 } }
    have decodes : emitTurn addingBody = .again decoded := rfl
    have adds : emitTurn decoded = .again added := rfl
    have finishes : emitTurn added = .done (finishEmit added, added) := rfl
    rw [decodeEmit, comes_iff.mp (.again decodes (.again adds (.done finishes)))]
  have garbled : Garbled [1, 2, 3] (decodeEmit addingBody).2.out := out ▸ .one [1, 2] [] (by decide)
  exact decodeEmit_notices rfl garbled

end Returning

end OpenDelta.Vcdiff
