import OpenDelta.Vcdiff.Client

/-!
# Inside the buffers

`xd3_decode_parse_halfinst` checks that an instruction does not run over the end of
the output buffer, with a sum of 32 bits. While no size makes the sums go round, and
there is one buffer that has not been freed, nothing is read or written outside of a
buffer, whatever the sections hold and whatever the source is (`window_defined`). A
size that does makes a long instruction look short (`decodeEmit_overruns`), and behind
two windows that copy from the target the buffer has been freed (`Buffers.swap_room`).
-/

namespace OpenDelta.Vcdiff
open ByteFile

/-- No sum goes round with a size. -/
structure Body.Bounded (b : Body) (size : Nat) : Prop where
  position : b.maxpos + size < 2 ^ 32
  block : b.src.blksize + size < 2 ^ 32

/-- No sum goes round with a size of the table, or with one that the section can be
read to have anywhere. -/
structure Body.Tame (b : Body) : Prop where
  table : b.Bounded 255
  sizes : ∀ insts size rest, insts <:+ b.inst → readSize insts = .ok (size, rest) → b.Bounded size

/-- What is left to put out of an instruction. -/
def Hinst.left (inst : Hinst) : Nat := if inst.type = .noop then 0 else inst.size

@[simp] theorem Hinst.left_noop {inst : Hinst} (noop : inst.type = .noop) : inst.left = 0 := if_pos noop

theorem Hinst.left_of_ne {inst : Hinst} (ne : inst.type ≠ .noop) : inst.left = inst.size := if_neg ne

/-- A copy starts before a position. -/
def Hinst.Starts (inst : Hinst) (before : Nat) : Prop := ∀ mode, inst.type = .cpy mode → inst.addr < before

theorem Hinst.Starts.of_noop {inst : Hinst} {before : Nat} (noop : inst.type = .noop) : inst.Starts before := by
  intro mode cpy
  rw [noop] at cpy
  cases cpy

/-- The instructions that have been decoded fill the window up to the position. -/
structure Body.InRoom (b : Body) : Prop where
  tame : b.Tame
  block1 : b.src.blksize + b.current1.left < 2 ^ 32
  block2 : b.src.blksize + b.current2.left < 2 ^ 32
  filled : b.cpylen + b.out.length + b.current1.left + b.current2.left = b.position
  within : b.position ≤ b.maxpos
  room : b.maxpos ≤ b.cpylen + b.room
  starts1 : b.current1.Starts (b.cpylen + b.out.length)
  starts2 : b.current2.Starts (b.cpylen + b.out.length + b.current1.left)

/-- What stays as it is through a window. -/
structure Body.Frame (b b' : Body) : Prop where
  maxpos : b'.maxpos = b.maxpos
  cpylen : b'.cpylen = b.cpylen
  room : b'.room = b.room
  shiftby : b'.src.shiftby = b.src.shiftby
  inst : b'.inst <:+ b.inst

section Room

variable {b b' : Body} {inst inst' : Hinst}

theorem Body.Frame.refl (b : Body) : b.Frame b := ⟨rfl, rfl, rfl, rfl, List.suffix_refl _⟩

theorem Body.Frame.trans {mid : Body} (first : b.Frame mid) (second : mid.Frame b') : b.Frame b' where
  maxpos := second.maxpos.trans first.maxpos
  cpylen := second.cpylen.trans first.cpylen
  room := second.room.trans first.room
  shiftby := second.shiftby.trans first.shiftby
  inst := second.inst.trans first.inst

theorem Body.Frame.blksize (frame : b.Frame b') : b'.src.blksize = b.src.blksize := by
  rw [Source.blksize, Source.blksize, frame.shiftby]

theorem Body.Bounded.frame {size : Nat} (bounded : b.Bounded size) (frame : b.Frame b') : b'.Bounded size := by
  obtain ⟨position, block⟩ := bounded
  exact ⟨frame.maxpos ▸ position, frame.blksize ▸ block⟩

theorem Body.Bounded.mono {size size' : Nat} (bounded : b.Bounded size) (le : size' ≤ size) : b.Bounded size' := by
  obtain ⟨position, block⟩ := bounded
  exact ⟨by omega, by omega⟩

theorem Body.Frame.reaches (frame : b.Frame b') (room : b.maxpos ≤ b.cpylen + b.room) :
    b'.maxpos ≤ b'.cpylen + b'.room := by
  rw [frame.maxpos, frame.cpylen, frame.room]
  exact room

theorem Body.Tame.frame (tame : b.Tame) (frame : b.Frame b') : b'.Tame where
  table := tame.table.frame frame
  sizes insts size rest suffix read := (tame.sizes insts size rest (suffix.trans frame.inst) read).frame frame

/-! ## Decoding -/

theorem usize_of_lt {n : Nat} (lt : n < 2 ^ 32) : usize n = n := Nat.mod_eq_of_lt lt

theorem readSize_suffix {insts rest : Bytes} {size : Nat} (read : readSize insts = .ok (size, rest)) : rest <:+ insts := by
  obtain ⟨bytes, rfl, -⟩ := (readInteger_ok_iff oflow32 (Nat.pow_pos (by omega))).mp read
  exact List.suffix_append _ _

theorem halfSize_bounded {size : Nat} {insts : Bytes} (tame : b.Tame) (table : inst.size ≤ 255)
    (sized : halfSize b inst = .ok (size, insts)) : b.Bounded size ∧ insts <:+ b.inst := by
  unfold halfSize at sized
  split at sized
  · exact ⟨tame.sizes _ _ _ (List.suffix_refl _) sized, readSize_suffix sized⟩
  · cases sized
    exact ⟨tame.table.mono table, List.suffix_refl _⟩

theorem halfAddr_starts {size address : Nat} {addr : Bytes} {acache : AddrCache}
    (addressed : halfAddr b inst size = .ok (address, addr, acache)) {mode : Nat} (cpy : inst.type = .cpy mode) :
    address < b.position := by
  unfold halfAddr at addressed
  rw [cpy] at addressed
  obtain ⟨⟨address, addr, acache⟩, -, addressed⟩ := bind_ok addressed
  dsimp only at addressed
  split at addressed
  · cases addressed
  split at addressed
  · cases addressed
  · rename_i before _
    cases addressed
    exact Nat.lt_of_not_le before

/-- An instruction that has been decoded takes the position on. -/
structure Placed (b : Body) (inst : Hinst) (b' : Body) : Prop where
  frame : b.Frame b'
  out : b'.out = b.out
  block : b.src.blksize + inst.left < 2 ^ 32
  position : b'.position = b.position + inst.left
  within : b'.position ≤ b.maxpos
  starts : inst.Starts b.position

theorem parseUnlessNoop_placed (tame : b.Tame) (within : b.position ≤ b.maxpos) (table : inst.size ≤ 255)
    (parsed : parseUnlessNoop b inst = .ok (inst', b')) : Placed b inst' b' := by
  unfold parseUnlessNoop at parsed
  split at parsed
  · rename_i noop
    cases parsed
    have none := Hinst.left_noop noop
    refine ⟨.refl b, rfl, ?_, ?_, within, .of_noop noop⟩
    · rw [none]
      exact (tame.table.mono (Nat.zero_le _)).block
    · rw [none]
      rfl
  · rename_i ne
    obtain ⟨⟨size, insts⟩, sized, parsed⟩ := bind_ok parsed
    obtain ⟨⟨address, addr, acache⟩, addressed, parsed⟩ := bind_ok parsed
    obtain ⟨bounded, suffix⟩ := halfSize_bounded tame table sized
    have below := bounded.position
    dsimp only at parsed
    rw [usize_of_lt (by omega)] at parsed
    split at parsed
    · cases parsed
    · rename_i fits
      cases parsed
      refine ⟨⟨rfl, rfl, rfl, rfl, suffix⟩, rfl, ?_, ?_, Nat.le_of_not_lt fits, ?_⟩
      · rw [Hinst.left_of_ne (by exact ne)]
        exact bounded.block
      · rw [Hinst.left_of_ne (by exact ne)]
      · exact fun mode cpy => halfAddr_starts addressed cpy

theorem decodeInstruction_inRoom (inRoom : b.InRoom) (noop1 : b.current1.type = .noop) (noop2 : b.current2.type = .noop)
    (decoded : decodeInstruction b = .ok b') : b'.InRoom := by
  have filled := inRoom.filled
  rw [Hinst.left_noop noop1, Hinst.left_noop noop2] at filled
  unfold decodeInstruction at decoded
  split at decoded
  · cases decoded
  · rename_i code insts eq
    have byte (size : UInt8) : size.toNat ≤ 255 := Nat.le_of_lt_succ size.toNat_lt
    have frame : b.Frame { b with inst := insts } := ⟨rfl, rfl, rfl, rfl, eq ▸ List.suffix_cons _ _⟩
    have tame := inRoom.tame.frame frame
    obtain ⟨⟨current1, b1⟩, parsed1, decoded⟩ := bind_ok decoded
    obtain ⟨⟨current2, b2⟩, parsed2, decoded⟩ := bind_ok decoded
    cases decoded
    have first := parseUnlessNoop_placed tame inRoom.within (byte _) parsed1
    have second := parseUnlessNoop_placed (tame.frame first.frame) (first.frame.maxpos ▸ first.within) (byte _) parsed2
    have position1 : b1.position = b.position + current1.left := first.position
    have position2 := second.position
    have within := second.within
    have block2 := second.block
    have starts2 := second.starts
    have both := first.frame.trans second.frame
    rw [first.frame.maxpos] at within
    rw [first.frame.blksize] at block2
    rw [position1] at position2 starts2
    have out : b2.out = b.out := second.out.trans first.out
    have cpylen : b2.cpylen = b.cpylen := both.cpylen
    have maxpos : b2.maxpos = b.maxpos := both.maxpos
    have blksize : b2.src.blksize = b.src.blksize := both.blksize
    have tame2 := tame.frame both
    constructor
    case tame => exact tame2.frame ⟨rfl, rfl, rfl, rfl, List.suffix_refl _⟩
    case block1 =>
      show b2.src.blksize + current1.left < 2 ^ 32
      rw [blksize]
      exact first.block
    case block2 =>
      show b2.src.blksize + current2.left < 2 ^ 32
      rw [blksize]
      exact block2
    case filled =>
      show b2.cpylen + b2.out.length + current1.left + current2.left = b2.position
      rw [cpylen, out]
      omega
    case within =>
      show b2.position ≤ b2.maxpos
      rw [maxpos]
      exact within
    case room => exact both.reaches inRoom.room
    case starts1 =>
      show current1.Starts (b2.cpylen + b2.out.length)
      rw [cpylen, out, show b.cpylen + b.out.length = b.position by omega]
      exact first.starts
    case starts2 =>
      show current2.Starts (b2.cpylen + b2.out.length + current1.left)
      rw [cpylen, out, show b.cpylen + b.out.length = b.position by omega]
      exact starts2

/-! ## Output -/

/-- What has been put out of an instruction is no longer left of it. -/
structure Put (b : Body) (inst : Hinst) (b' : Body) (inst' : Hinst) : Prop where
  frame : b.Frame b'
  position : b'.position = b.position
  current1 : b'.current1 = b.current1
  current2 : b'.current2 = b.current2
  length : b'.out.length + inst'.left = b.out.length + inst.left
  left : inst'.left ≤ inst.left
  starts : inst'.Starts (b'.cpylen + b'.out.length)

/-- An instruction goes on inside of the buffers, or stops there. -/
def Output.Puts (b : Body) (inst : Hinst) : Output → Prop
  | .goes inst' b' => Put b inst b' inst'
  | .stops answer b' => answer ≠ .undefined ∧ Put b inst b' inst

/-- An instruction that is there, with the room for it. -/
structure Ready (b : Body) (inst : Hinst) : Prop where
  ne : inst.type ≠ .noop
  block : b.src.blksize + inst.size < 2 ^ 32
  room : b.out.length + inst.size ≤ b.room
  starts : inst.Starts (b.cpylen + b.out.length)

theorem Ready.refl (ready : Ready b inst) : Put b inst b inst := ⟨.refl b, rfl, rfl, rfl, rfl, Nat.le_refl _, ready.starts⟩

theorem copyTarget_puts (ready : Ready b inst) {mode : Nat} (cpy : inst.type = .cpy mode)
    (target : ¬inst.addr < b.cpylen) : (copyTarget b inst).Puts b inst := by
  have starts := ready.starts mode cpy
  have inside : inst.addr - b.cpylen < b.out.length := by omega
  unfold copyTarget
  rw [if_pos ready.room]
  split
  · rename_i out copied
    refine ⟨⟨rfl, rfl, rfl, rfl, List.suffix_refl _⟩, rfl, rfl, rfl, ?_, Nat.zero_le _, .of_noop rfl⟩
    rw [Hinst.left_noop rfl, Hinst.left_of_ne ready.ne]
    exact copyWithin_length copied
  · rename_i none
    have some := copyWithin_isSome inside inst.size
    rw [none] at some
    cases some

/-- The part of a copy that is on the block lies in the bytes at hand. -/
theorem Source.part_inside (source : Source) {blkoff : Nat} (inside : blkoff < source.blksize)
    (block : source.blksize + inst.size < 2 ^ 32)
    (there : ¬(source.curblk.length ≠ source.blksize ∧ usize (blkoff + inst.size) > source.curblk.length)) :
    blkoff + (source.part blkoff inst).1 ≤ source.curblk.length := by
  have sum : usize (blkoff + inst.size) = blkoff + inst.size := usize_of_lt (by omega)
  rw [sum] at there
  rw [part, sum]
  split
  · show blkoff + inst.size ≤ source.curblk.length
    omega
  · show blkoff + (source.blksize - blkoff) ≤ source.curblk.length
    omega

/-- What is put out of a copy, and what is left. -/
theorem Source.part_left (source : Source) {blkoff : Nat} (ne : inst.type ≠ .noop) (inside : blkoff < source.blksize)
    (block : source.blksize + inst.size < 2 ^ 32) :
    (source.part blkoff inst).1 + (source.part blkoff inst).2.left = inst.size ∧
      ∀ before, inst.Starts before → (source.part blkoff inst).2.Starts (before + (source.part blkoff inst).1) := by
  have sum : usize (blkoff + inst.size) = blkoff + inst.size := usize_of_lt (by omega)
  rw [part, sum]
  split
  · refine ⟨?_, fun _ _ => .of_noop rfl⟩
    show inst.size + inst.done.left = inst.size
    rw [Hinst.left_noop rfl]
    rfl
  · refine ⟨?_, fun before starts mode cpy => Nat.add_lt_add_right (starts mode cpy) _⟩
    dsimp only
    rw [Hinst.left_of_ne (by exact ne)]
    dsimp only
    omega

theorem copySource_puts (ready : Ready b inst) : (copySource b inst).Puts b inst := by
  have inside : (b.src.blksizeAdd inst.addr).2 < b.src.blksize := by
    rw [b.src.blksizeAdd_eq]
    exact Nat.mod_lt _ b.src.blksize_pos
  unfold copySource
  dsimp only
  split
  · exact ⟨nofun, ⟨rfl, rfl, rfl, rfl, List.suffix_refl _⟩, rfl, rfl, rfl, rfl, Nat.le_refl _, ready.starts⟩
  split
  · exact ⟨nofun, ready.refl⟩
  rename_i there
  have hand := b.src.part_inside inside ready.block there
  obtain ⟨sum, starts⟩ := b.src.part_left ready.ne inside ready.block
  have room := ready.room
  have taken : (slice b.src.curblk (b.src.blksizeAdd inst.addr).2 (b.src.part (b.src.blksizeAdd inst.addr).2 inst).1).length =
      (b.src.part (b.src.blksizeAdd inst.addr).2 inst).1 := by
    rw [slice_length]
    omega
  rw [if_pos hand, putOut, if_pos (by omega)]
  refine ⟨⟨rfl, rfl, rfl, rfl, List.suffix_refl _⟩, rfl, rfl, rfl, ?_, ?_, ?_⟩
  · rw [Hinst.left_of_ne ready.ne, List.length_append, taken]
    omega
  · rw [Hinst.left_of_ne ready.ne]
    omega
  · rw [List.length_append, taken, ← Nat.add_assoc]
    exact starts _ ready.starts

theorem outputHalfinst_puts (ready : Ready b inst) : (outputHalfinst b inst).Puts b inst := by
  have left := Hinst.left_of_ne ready.ne
  unfold outputHalfinst
  split
  · exact absurd (by assumption) ready.ne
  · split
    · exact ⟨nofun, ready.refl⟩
    · rw [if_pos ready.room]
      refine ⟨⟨rfl, rfl, rfl, rfl, List.suffix_refl _⟩, rfl, rfl, rfl, ?_, Nat.zero_le _, .of_noop rfl⟩
      rw [Hinst.left_noop rfl, left, List.length_append, List.length_replicate]
      rfl
  · split
    · exact ⟨nofun, ready.refl⟩
    · rename_i short
      have taken : (b.data.take inst.size).length = inst.size := List.length_take_of_le (Nat.le_of_not_lt short)
      have room : b.out.length + (b.data.take inst.size).length ≤ b.room := taken.symm ▸ ready.room
      rw [putOut, if_pos (by exact room)]
      refine ⟨⟨rfl, rfl, rfl, rfl, List.suffix_refl _⟩, rfl, rfl, rfl, ?_, Nat.zero_le _, .of_noop rfl⟩
      rw [Hinst.left_noop rfl, left, List.length_append, taken]
      rfl
  · rename_i cpy
    split
    · split
      · exact ⟨nofun, ready.refl⟩
      · exact copySource_puts ready
    · exact copyTarget_puts ready cpy (by assumption)

/-! ## A window -/

theorem Body.InRoom.ready1 (inRoom : b.InRoom) (ne : b.current1.type ≠ .noop) : Ready b b.current1 where
  ne
  block := by
    have block := inRoom.block1
    rwa [Hinst.left_of_ne ne] at block
  room := by
    have filled := inRoom.filled
    have within := inRoom.within
    have room := inRoom.room
    rw [Hinst.left_of_ne ne] at filled
    omega
  starts := inRoom.starts1

theorem Body.InRoom.ready2 (inRoom : b.InRoom) (noop : b.current1.type = .noop) (ne : b.current2.type ≠ .noop) :
    Ready b b.current2 where
  ne
  block := by
    have block := inRoom.block2
    rwa [Hinst.left_of_ne ne] at block
  room := by
    have filled := inRoom.filled
    have within := inRoom.within
    have room := inRoom.room
    rw [Hinst.left_noop noop, Hinst.left_of_ne ne] at filled
    omega
  starts := by
    have starts := inRoom.starts2
    rwa [Hinst.left_noop noop] at starts

/-- The window with the first instruction put out as far as it goes. -/
theorem Put.inRoom1 (put : Put b b.current1 b' inst') (inRoom : b.InRoom) : { b' with current1 := inst' }.InRoom := by
  obtain ⟨frame, position, -, current2, length, left, starts⟩ := put
  have blksize := frame.blksize
  have block1 := inRoom.block1
  have filled := inRoom.filled
  have tame := inRoom.tame.frame frame
  constructor
  case tame => exact tame.frame ⟨rfl, rfl, rfl, rfl, List.suffix_refl _⟩
  case block1 =>
    show b'.src.blksize + inst'.left < 2 ^ 32
    omega
  case block2 =>
    show b'.src.blksize + b'.current2.left < 2 ^ 32
    rw [blksize, current2]
    exact inRoom.block2
  case filled =>
    show b'.cpylen + b'.out.length + inst'.left + b'.current2.left = b'.position
    rw [frame.cpylen, current2, position]
    omega
  case within =>
    show b'.position ≤ b'.maxpos
    rw [position, frame.maxpos]
    exact inRoom.within
  case room => exact frame.reaches inRoom.room
  case starts1 => exact starts
  case starts2 =>
    show b'.current2.Starts (b'.cpylen + b'.out.length + inst'.left)
    rw [frame.cpylen, current2, show b.cpylen + b'.out.length + inst'.left = b.cpylen + b.out.length + b.current1.left by omega]
    exact inRoom.starts2

/-- The same for the second one, behind the first. -/
theorem Put.inRoom2 (put : Put b b.current2 b' inst') (noop : b.current1.type = .noop) (inRoom : b.InRoom) :
    { b' with current2 := inst' }.InRoom := by
  obtain ⟨frame, position, current1, -, length, left, starts⟩ := put
  have blksize := frame.blksize
  have block2 := inRoom.block2
  have filled := inRoom.filled
  have tame := inRoom.tame.frame frame
  have noop' : b'.current1.type = .noop := current1 ▸ noop
  rw [Hinst.left_noop noop] at filled
  constructor
  case tame => exact tame.frame ⟨rfl, rfl, rfl, rfl, List.suffix_refl _⟩
  case block1 =>
    show b'.src.blksize + b'.current1.left < 2 ^ 32
    rw [blksize, current1]
    exact inRoom.block1
  case block2 =>
    show b'.src.blksize + inst'.left < 2 ^ 32
    omega
  case filled =>
    show b'.cpylen + b'.out.length + b'.current1.left + inst'.left = b'.position
    rw [frame.cpylen, Hinst.left_noop noop', position]
    omega
  case within =>
    show b'.position ≤ b'.maxpos
    rw [position, frame.maxpos]
    exact inRoom.within
  case room => exact frame.reaches inRoom.room
  case starts1 => exact .of_noop noop'
  case starts2 =>
    show inst'.Starts (b'.cpylen + b'.out.length + b'.current1.left)
    rw [Hinst.left_noop noop']
    exact starts

theorem emitTurn_inRoom (inRoom : b.InRoom) :
    (emitTurn b).Holds Body.InRoom fun returned => returned.1 ≠ .undefined ∧ returned.2.InRoom := by
  unfold emitTurn
  split
  · rename_i both
    split
    · refine ⟨?_, inRoom⟩
      unfold finishEmit
      split
      · nofun
      split
      · nofun
      split
      · nofun
      split <;> nofun
    split
    · exact decodeInstruction_inRoom inRoom both.1 both.2 (by assumption)
    · exact ⟨nofun, inRoom⟩
  rename_i both
  split
  · rename_i ne
    have puts := outputHalfinst_puts (inRoom.ready1 ne)
    split
    · rename_i goes
      rw [goes] at puts
      exact Put.inRoom1 puts inRoom
    · rename_i stops
      rw [stops] at puts
      obtain ⟨defined, put⟩ := puts
      have stays := put.inRoom1 inRoom
      rw [← put.current1] at stays
      exact ⟨defined, stays⟩
  · rename_i first
    have noop := not_not.mp first
    have puts := outputHalfinst_puts (inRoom.ready2 noop fun second => both ⟨noop, second⟩)
    split
    · rename_i goes
      rw [goes] at puts
      exact Put.inRoom2 puts noop inRoom
    · rename_i stops
      rw [stops] at puts
      obtain ⟨defined, put⟩ := puts
      have stays := put.inRoom2 noop inRoom
      rw [← put.current2] at stays
      exact ⟨defined, stays⟩

/-- Decoding a window that is tame keeps within the buffers, whatever its sections
hold, and leaves it so that it can be gone on with. -/
theorem decodeEmit_inRoom (inRoom : b.InRoom) : (decodeEmit b).1 ≠ .undefined ∧ (decodeEmit b).2.InRoom := by
  have comes : Comes emitTurn b (decodeEmit b) := comes_untilDone b
  exact comes.invariant inRoom fun _ => emitTurn_inRoom

/-- Another block does not matter. -/
theorem Body.InRoom.src (inRoom : b.InRoom) {src : Source} (same : src.shiftby = b.src.shiftby) :
    { b with src }.InRoom := by
  have frame : b.Frame { b with src } := ⟨rfl, rfl, rfl, same, List.suffix_refl _⟩
  have blksize := frame.blksize
  have block1 := inRoom.block1
  have block2 := inRoom.block2
  rw [← blksize] at block1 block2
  exact ⟨inRoom.tame.frame frame, block1, block2, inRoom.filled, inRoom.within, inRoom.room, inRoom.starts1, inRoom.starts2⟩

theorem Stream.placed_inRoom {s : Stream} (inRoom : s.body.InRoom) : s.placed.body.InRoom := by
  unfold placed
  split
  · exact inRoom.src rfl
  · exact inRoom

/-- A window before its first instruction, as its header leaves it. -/
structure Body.Opened (b : Body) : Prop where
  through1 : b.current1.type = .noop
  through2 : b.current2.type = .noop
  out : b.out = []
  position : b.position = b.cpylen
  maxpos : b.maxpos = b.cpylen + b.tgtlen
  small : b.tgtlen ≤ hardmaxwinsize

/-- There is one buffer at most, and it has not been freed. -/
structure Buffers.Single (buffers : Buffers) : Prop where
  live : buffers.nextOut = buffers.decBuffer
  lastwin : buffers.decLastwin = 0

theorem Buffers.Single.defined {buffers : Buffers} (single : buffers.Single) : buffers.mixed = false :=
  decide_eq_false fun mixed => mixed.2.1 single.lastwin

theorem Buffers.Single.reuse {buffers : Buffers} (single : buffers.Single) : buffers.reuse.Single := by
  obtain ⟨live, lastwin⟩ := single
  unfold Buffers.reuse
  split
  · rename_i same
    exact ⟨lastwin.symm.trans (same.trans live), lastwin⟩
  · exact ⟨live, lastwin⟩

theorem Buffers.Single.grow {buffers : Buffers} (single : buffers.Single) (tgtlen : Nat) : (buffers.grow tgtlen).Single := by
  unfold Buffers.grow
  split
  · exact ⟨rfl, single.lastwin⟩
  · exact single

/-- Once a second buffer has been allocated, the first one has been freed, and is used
again behind the window. -/
theorem Buffers.swap_room {buffers : Buffers} (second : buffers.decLastwin ≠ 0)
    (freed : buffers.decLastwin ≠ buffers.decBuffer) : buffers.swap.room = 0 := by
  rw [Buffers.swap, if_neg second, Buffers.room]
  exact if_neg freed

/-- It is large enough for the window. -/
theorem Buffers.Single.room {buffers : Buffers} (single : buffers.Single) {tgtlen : Nat} (small : tgtlen ≤ hardmaxwinsize) :
    tgtlen ≤ (buffers.grow tgtlen).room := by
  have hard : hardmaxwinsize = 16777216 := rfl
  have size : allocsize = 16384 := rfl
  rw [Buffers.room, if_pos (single.grow tgtlen).live, Buffers.grow]
  split
  · exact le_roundBlksize (by omega)
  · exact Nat.le_of_not_lt (by assumption)

/-- A window that is set up in the one buffer has one that is large enough. -/
structure Furnished (s : Stream) (buffers : Buffers) : Prop where
  single : buffers.Single
  room : s.body.tgtlen ≤ buffers.room

theorem setupBuffers_meets {s : Stream} (single : s.buffers.Single) (small : s.body.tgtlen ≤ hardmaxwinsize) :
    Meets (fun s' => ∃ buffers, s' = s.setUp buffers ∧ Furnished s buffers)
      (fun answer _ => ∃ failure, answer = .fails failure) (setupBuffers s) := by
  unfold setupBuffers
  split
  · split
    · exact ⟨_, rfl⟩
    rw [if_neg (by rw [single.defined]; exact Bool.false_ne_true)]
    exact ⟨_, rfl, single.reuse.grow _, single.reuse.room small⟩
  · exact ⟨_, rfl, single.grow _, single.room small⟩

/-- There is room for the window once the buffers are set up. -/
theorem Body.Opened.inRoom {s : Stream} {buffers : Buffers} (opened : s.body.Opened) (furnished : Furnished s buffers)
    (tame : (s.setUp buffers).body.Tame) : (s.setUp buffers).body.InRoom := by
  obtain ⟨through1, through2, out, position, maxpos, -⟩ := opened
  have room := furnished.room
  have block := (tame.table.mono (Nat.zero_le _)).block
  constructor
  case tame => exact tame
  case block1 =>
    rw [Hinst.left_noop (by exact through1)]
    exact block
  case block2 =>
    rw [Hinst.left_noop (by exact through2)]
    exact block
  case filled =>
    show s.body.cpylen + s.body.out.length + s.body.current1.left + s.body.current2.left = s.body.position
    rw [out, Hinst.left_noop through1, Hinst.left_noop through2]
    exact position.symm
  case within =>
    show s.body.position ≤ s.body.maxpos
    omega
  case room =>
    show s.body.maxpos ≤ s.body.cpylen + buffers.room
    omega
  case starts1 => exact .of_noop through1
  case starts2 => exact .of_noop through2

theorem setupBuffers_inRoom {s s' : Stream} (opened : s.body.Opened) (single : s.buffers.Single)
    (set : setupBuffers s = .ok s') (tame : s'.body.Tame) : s'.body.InRoom := by
  obtain ⟨buffers, rfl, furnished⟩ := (setupBuffers_meets single opened.small).ok set
  exact opened.inRoom furnished tame

/-- The decoder is called for a window again with each block that it asks for. -/
def windowTurn (source : Bytes) (s : Stream) : Turn Stream (Answer × Stream) :=
  match emitCase s with
  | .error (.getSrcBlk, s) => .again (setBlock s (sourceBlock source s.body.src))
  | .error returned => .done returned
  | .ok s => .again s

theorem windowTurn_inRoom {source : Bytes} {s : Stream} (inRoom : s.body.InRoom) :
    (windowTurn source s).Holds (fun s => s.body.InRoom)
      fun returned => returned.1 ≠ .undefined ∧ returned.2.body.InRoom := by
  obtain ⟨defined, stays⟩ := decodeEmit_inRoom (s.placed_inRoom inRoom)
  unfold windowTurn emitCase
  dsimp only
  cases answer : (decodeEmit s.placed.body).1 with
  | getSrcBlk => exact stays.src rfl
  | undefined => exact absurd answer defined
  | output => exact ⟨nofun, stays⟩
  | input => exact ⟨nofun, stays⟩
  | gotHeader => exact ⟨nofun, stays⟩
  | winStart => exact ⟨nofun, stays⟩
  | winFinish => exact ⟨nofun, stays⟩
  | fails failure => exact ⟨nofun, stays⟩

/-- A window that is tame is decoded inside of the buffers, with whatever source,
whatever else its sections hold. -/
theorem window_defined {source : Bytes} {s s' : Stream} (opened : s.body.Opened) (single : s.buffers.Single)
    (set : setupBuffers s = .ok s') (tame : s'.body.Tame) {answer : Answer} {t : Stream} (comes : Comes (windowTurn source) s' (answer, t)) :
    answer ≠ .undefined ∧ t.body.out.length ≤ t.body.room := by
  have inRoom := setupBuffers_inRoom opened single set tame
  have kept : answer ≠ .undefined ∧ t.body.InRoom :=
    @Comes.invariant _ _ _ _ _ (fun s => s.body.InRoom) (fun returned => returned.1 ≠ .undefined ∧ returned.2.body.InRoom)
      comes inRoom fun _ => windowTurn_inRoom
  obtain ⟨defined, stays⟩ := kept
  have filled := stays.filled
  have within := stays.within
  have room := stays.room
  exact ⟨defined, by omega⟩

/-- The sizes that fit in four bytes are tame. -/
theorem Body.Tame.of_short (short : b.inst.length ≤ 4) (small : b.maxpos ≤ 2 ^ 31) (block : b.src.blksize ≤ 2 ^ 31) :
    b.Tame where
  table := ⟨by omega, by omega⟩
  sizes insts size rest suffix read := by
    obtain ⟨bytes, rfl, -, eq, -⟩ := (readInteger_ok_iff oflow32 (Nat.pow_pos (by omega))).mp read
    have length := suffix.length_le
    rw [List.length_append] at length
    have below := valueFrom_lt 0 bytes
    have pow : 128 ^ bytes.length ≤ 128 ^ 4 := Nat.pow_le_pow_right (by omega) (by omega)
    exact ⟨by omega, by omega⟩

/-- An instruction that adds the three bytes of the data section. -/
def addingStream : Stream :=
  { startStream 14 with
    decState := .emit
    sect := fun name => match name with
      | .data => { buf := [1, 2, 3], size := 3 }
      | .inst => { buf := [4], size := 1 }
      | .addr => {}
    body := { (startStream 14).body with codeTable := rfc3284CodeTable, tgtlen := 3, maxpos := 3 } }

theorem window_defined_adding : Answer.output ≠ .undefined ∧ ([1, 2, 3] : Bytes).length ≤ 2 ^ 14 := by
  let begun : Stream := addingStream.setUp { decBuffer := 1, nextOut := 1, spaceOut := 2 ^ 14 }
  let decoded : Body := { begun.body with inst := [], position := 3, current1 := { type := .add, size := 3 } }
  let added : Body := { decoded with data := [], out := [1, 2, 3], current1 := { type := .noop, size := 3 } }
  have set : setupBuffers addingStream = .ok begun := rfl
  have decodes : emitTurn begun.body = .again decoded := rfl
  have adds : emitTurn decoded = .again added := rfl
  have finishes : emitTurn added = .done (.output, added) := rfl
  have returns : decodeEmit begun.body = (.output, added) := comes_iff.mp (.again decodes (.again adds (.done finishes)))
  have turned : windowTurn [] begun = .done (.output, finishWindow { begun with body := added }) := by
    have placed : begun.placed = begun := by
      have absent : begun.copiesSource = false := by
        simp [Stream.copiesSource, begun, Stream.setUp, addingStream, startStream]
      rw [Stream.placed, absent]
      rfl
    unfold windowTurn emitCase
    dsimp only
    rw [placed, returns]
    rfl
  have tame : begun.body.Tame := .of_short (by decide) (by decide) (by decide)
  exact window_defined ⟨rfl, rfl, rfl, rfl, rfl, by decide⟩ ⟨rfl, rfl⟩ set tame (.done turned)

/-- A run of `2 ^ 32 - 1` bytes, in a window of one. -/
def overrunningBody : Body :=
  { (startStream 14).body with
    codeTable := rfc3284CodeTable
    data := [7]
    inst := [0, 0x8f, 0xff, 0xff, 0xff, 0x7f]
    cpylen := 1
    tgtlen := 1
    position := 1
    maxpos := 2
    room := 2 ^ 14 }

/-- The sum goes round to zero, and the run is put out behind the buffer. -/
theorem decodeEmit_overruns : (decodeEmit overrunningBody).1 = .undefined := by
  let decoded : Body := { overrunningBody with inst := [], position := 0, current1 := { type := .run, size := 4294967295 } }
  have decodes : emitTurn overrunningBody = .again decoded := rfl
  have puts : emitTurn decoded = .done (.undefined, decoded) := by
    simp [emitTurn, outputHalfinst, decoded, overrunningBody]
  rw [decodeEmit, comes_iff.mp (.again decodes (.done puts))]

end Room

end OpenDelta.Vcdiff
