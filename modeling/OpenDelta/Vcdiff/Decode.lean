import OpenDelta.Vcdiff.Window

/-!
# The decoder

`xd3_decode_input`: a state machine that takes the delta as it comes. Its cases
follow one another as those of the `switch` do, and it goes on with the case it is
in when more input is there. It returns for more input, for a block of the source,
with the bytes of a window, and at the start and the end of one.

A table of its own that a delta brings with it is decoded by `applyTableEncoding`,
a parameter here. Only the flags that `dedelta` sets are looked at, and no
secondary compressor is built in.
-/

namespace OpenDelta.Vcdiff
open ByteFile

/-- `xd3_decode_state` -/
inductive DecState where
  | vcHead | hdrInd | secondId | tabLen | near | same | tabDat | appLen | appDat
  | winInd | cpyLen | cpyOff | encLen | tgtLen | delInd | dataLen | instLen | addrLen | ckSum
  | data | inst | addr | emit | finish | aborted
  deriving DecidableEq, Repr

/-- The three sections of a window. -/
inductive SectName where
  | data | inst | addr
  deriving DecidableEq, Repr

/-- `xd3_desect`; `buf` are the bytes so far, `pos` their number while it is being filled. -/
structure Section where
  buf : Bytes := []
  size : Nat := 0
  pos : Nat := 0
  deriving DecidableEq

/-- The output buffers of `xd3_stream`. A pointer is the number of an allocation, the
null pointer 0. A new buffer is allocated when `decBuffer` has been freed, so that
only the buffer of `decBuffer`, the last number, has not been. -/
structure Buffers where
  decBuffer : Nat := 0
  nextOut : Nat := 0
  spaceOut : Nat := 0
  decLastwin : Nat := 0
  decLastspace : Nat := 0
  deriving DecidableEq

/-- `xd3_stream`: `input` are the `avail_in` bytes at `next_in`, `body` is what
decoding a window needs of it. -/
structure Stream where
  decState : DecState
  input : Bytes
  part32 : Nat
  part64 : Nat
  magic : Bytes
  hdrInd : Nat
  secondid : Nat
  codetblsz : Nat
  codetbl : Bytes
  appheadsz : Nat
  appheader : Bytes
  windowCount : Nat
  currentWindow : Nat
  winstart : Nat
  laststart : Nat
  winInd : Nat
  delInd : Nat
  cpyoff : Nat
  enclen : Nat
  cksum : Bytes
  adler32 : Nat
  winbytes : Nat
  sect : SectName → Section
  buffers : Buffers
  body : Body

/-- What a part of the decoder does: it goes on, or returns from the decoder. -/
abbrev Step (α : Type) := Except (Answer × Stream) α

/-- A return with an error. -/
def refuse {α : Type} (code : Code) (msg : String) (s : Stream) : Step α := .error (.fails ⟨code, msg⟩, s)

/-- A failure of a part is one of the decoder. -/
def must {α : Type} (result : Except Failure α) (s : Stream) : Step α :=
  match result with
  | .ok a => .ok a
  | .error failure => .error (.fails failure, s)

/-- A part that is only there in some cases. -/
def whenever (cond : Bool) (step : Stream → Step Stream) (s : Stream) : Step Stream := if cond then step s else .ok s

/-! ## Taking input -/

/-- `xd3_decode_byte` -/
def takeByte (s : Stream) : Step (Nat × Stream) :=
  match s.input with
  | [] => .error (.input, s)
  | b :: input => .ok (b.toNat, { s with input })

/-- `xd3_decode_bytes`; `store` says where the bytes are kept, of which some may be there. -/
def takeBytes (got : Bytes) (size : Nat) (store : Stream → Bytes → Stream) (s : Stream) : Step Stream :=
  let want := size - got.length
  let s' := store { s with input := s.input.drop want } (got ++ s.input.take want)
  if s.input.length < want then .error (.input, s') else .ok s'

/-- `xd3_decode_size` -/
def takeSize (s : Stream) : Step (Nat × Stream) :=
  match decodeInteger uint32OflowMask s.part32 s.input with
  | .value val input => .ok (val, { s with part32 := 0, input })
  | .partly part => .error (.input, { s with part32 := part, input := [] })
  | .fails failure part input => .error (.fails failure, { s with part32 := part, input })

/-- `xd3_decode_offset` -/
def takeOffset (s : Stream) : Step (Nat × Stream) :=
  match decodeInteger uint64OflowMask s.part64 s.input with
  | .value val input => .ok (val, { s with part64 := 0, input })
  | .partly part => .error (.input, { s with part64 := part, input := [] })
  | .fails failure part input => .error (.fails failure, { s with part64 := part, input })

/-- `BYTE_CASE`, `SIZE_CASE` and `OFFSET_CASE`: the value is taken if it is there,
and the state set. -/
def takeCase (take : Stream → Step (Nat × Stream)) (expr : Bool) (store : Stream → Nat → Stream) (nstate : DecState)
    (s : Stream) : Step Stream :=
  if expr then do
    let (val, s) ← take s
    .ok { store s val with decState := nstate }
  else .ok { s with decState := nstate }

/-! ## The header -/

/-- `VCD_SECONDARY`, `VCD_CODETABLE` and `VCD_APPHEADER` -/
def Stream.secondary (s : Stream) : Bool := s.hdrInd &&& 1 ≠ 0
def Stream.codetable (s : Stream) : Bool := s.hdrInd &&& 2 ≠ 0
def Stream.appheaded (s : Stream) : Bool := s.hdrInd &&& 4 ≠ 0

def vcHeadCase (s : Stream) : Step Stream := do
  let s ← takeBytes s.magic 4 (fun s magic => { s with magic }) s
  if s.magic.take 3 ≠ [0xd6, 0xc3, 0xc4] then refuse .invalidInput "not a VCDIFF input" s
  else if s.magic.drop 3 ≠ [0] then refuse .invalidInput "VCDIFF input version > 0 is not supported" s
  else .ok { s with decState := .hdrInd }

def hdrIndCheck (s : Stream) : Step Stream :=
  if s.hdrInd &&& 0xfffffff8 ≠ 0 then refuse .invalidInput "unrecognized header indicator bits set" s
  else .ok { s with decState := .secondId }

def hdrIndCase (s : Stream) : Step Stream := do
  let (hdrInd, s) ← takeByte s
  hdrIndCheck { s with hdrInd }

/-- None of the compressors is built in. -/
def secondIdFailure : Nat → Failure
  | 16 => ⟨.internal, "unavailable secondary compressor: FGK Adaptive Huffman"⟩
  | 1 => ⟨.internal, "unavailable secondary compressor: DJW Static Huffman"⟩
  | 2 => ⟨.internal, "unavailable secondary compressor: LZMA"⟩
  | _ => ⟨.invalidInput, "unknown secondary compressor ID"⟩

def secondIdCheck (s : Stream) : Step Stream := .error (.fails (secondIdFailure s.secondid), s)

def secondIdCase (s : Stream) : Step Stream :=
  if s.secondary then do
    let s ← takeCase takeByte true (fun s secondid => { s with secondid }) .tabLen s
    secondIdCheck s
  else .ok s

/-- The size counts the two bytes of the near and same modes. -/
def tabLenCase (s : Stream) : Step Stream := do
  let s ← takeCase takeSize s.codetable (fun s codetblsz => { s with codetblsz }) .near s
  if s.codetable then
    if s.codetblsz ≤ 2 then refuse .nomem "invalid code table size" s
    else .ok { s with codetblsz := s.codetblsz - 2 }
  else .ok s

def nearCase (s : Stream) : Step Stream :=
  takeCase takeByte s.codetable
    (fun s sNear => { s with body := { s.body with acache := { s.body.acache with sNear } } }) .same s

def sameCase (s : Stream) : Step Stream :=
  takeCase takeByte s.codetable
    (fun s sSame => { s with body := { s.body with acache := { s.body.acache with sSame } } }) .tabDat s

/-- The table that the stream decodes with. -/
def Stream.withTable (s : Stream) (codeTable : List Dinst) : Stream := { s with body := { s.body with codeTable } }

/-- The modes of the default table. -/
def Stream.withModes (s : Stream) (sNear sSame : Nat) : Stream :=
  { s with body := { s.body with acache := { s.body.acache with sNear, sSame } } }

/-- A table of its own. -/
def readTable (applyTableEncoding : Nat → Nat → Bytes → Except Failure (List Dinst)) (s : Stream) : Step Stream := do
  let s ← takeBytes s.codetbl s.codetblsz (fun s codetbl => { s with codetbl }) s
  let codeTable ← must (applyTableEncoding s.body.acache.sNear s.body.acache.sSame s.codetbl) s
  .ok (s.withTable codeTable)

/-- The default table. -/
def defaultTable (s : Stream) : Step Stream :=
  .ok ((s.withModes rfc3284CodeTableDesc.nearModes rfc3284CodeTableDesc.sameModes).withTable rfc3284CodeTable)

def useTable (applyTableEncoding : Nat → Nat → Bytes → Except Failure (List Dinst)) (s : Stream) : Step Stream :=
  if s.codetable then readTable applyTableEncoding s else defaultTable s

def tabDatCase (applyTableEncoding : Nat → Nat → Bytes → Except Failure (List Dinst)) (s : Stream) : Step Stream := do
  let s ← useTable applyTableEncoding s
  .ok { s with decState := .appLen }

def appLenCase (s : Stream) : Step Stream :=
  takeCase takeSize s.appheaded (fun s appheadsz => { s with appheadsz }) .appDat s

/-- A byte is added for the zero behind the header. With a size for which the sum
goes round, the zero is written outside of a buffer of no bytes. -/
def readAppheader (s : Stream) : Step Stream :=
  if usize (s.appheadsz + 1) ≤ s.appheadsz then .error (.undefined, s)
  else takeBytes s.appheader s.appheadsz (fun s appheader => { s with appheader }) s

def appDatCase (s : Stream) : Step Stream := do
  let s ← whenever s.appheaded readAppheader s
  .ok { s with decState := .winInd }

/-! ## The header of a window -/

/-- `VCD_SOURCE`, `VCD_TARGET` and `VCD_ADLER32` -/
def Stream.copiesSource (s : Stream) : Bool := s.winInd &&& 1 ≠ 0
def Stream.copiesTarget (s : Stream) : Bool := s.winInd &&& 2 ≠ 0
def Stream.checksummed (s : Stream) : Bool := s.winInd &&& 4 ≠ 0

/-- `SRCORTGT`: one of the two, and not both -/
def Stream.srcortgt (s : Stream) : Bool := s.copiesSource ≠ s.copiesTarget

/-- `XOFF_T_OVERFLOW` -/
def xoffOverflow (a b : Nat) : Bool := 2 ^ 64 - 1 - a < b

/-- `USIZE_T_OVERFLOW` -/
def usizeOverflow (a b : Nat) : Bool := 2 ^ 32 - 1 - a < b

/-- `xd3_decode_init_window` -/
def initWindow (s : Stream) : Stream :=
  { s with
    cpyoff := 0
    cksum := []
    body := { s.body with cpylen := 0, acache := .init s.body.acache.sNear s.body.acache.sSame } }

def winIndCheck (s : Stream) : Step Stream :=
  if s.winInd &&& 0xfffffff8 ≠ 0 then refuse .invalidInput "unrecognized window indicator bits set" s
  else .ok { initWindow s with decState := .cpyLen }

/-- The windows before end where this one starts. -/
def nextWinstart (s : Stream) : Step Stream :=
  if xoffOverflow s.winstart s.body.tgtlen then refuse .invalidInput "decoder file offset overflow" s
  else winIndCheck { s with winstart := s.winstart + s.body.tgtlen }

def winIndCase (s : Stream) : Step Stream := do
  let (winInd, s) ← takeByte s
  nextWinstart { s with winInd, currentWindow := s.windowCount }

/-- The first position is just behind the copy window. -/
def cpyLenCase (s : Stream) : Step Stream := do
  let s ← takeCase takeSize s.srcortgt (fun s cpylen => { s with body := { s.body with cpylen } }) .cpyOff s
  .ok { s with body := { s.body with position := s.body.cpylen } }

def cpyOffCase (s : Stream) : Step Stream := do
  let s ← takeCase takeOffset s.srcortgt (fun s cpyoff => { s with cpyoff }) .encLen s
  if xoffOverflow s.cpyoff s.body.cpylen then
    refuse .invalidInput "decoder copy window overflows a file offset" s
  else if s.copiesTarget ∧ s.cpyoff + s.body.cpylen > s.winstart then
    refuse .invalidInput "VCD_TARGET window out of bounds" s
  else .ok s

def encLenCase (s : Stream) : Step Stream := takeCase takeSize true (fun s enclen => { s with enclen }) .tgtLen s

/-- `XD3_HARDMAXWINSIZE` -/
def hardmaxwinsize : Nat := 1 <<< 24

def tgtLenCase (s : Stream) : Step Stream := do
  let s ← takeCase takeSize true (fun s tgtlen => { s with body := { s.body with tgtlen } }) .delInd s
  if usizeOverflow s.body.cpylen s.body.tgtlen then
    refuse .invalidInput "decoder target window overflows a usize_t" s
  else if s.body.tgtlen > hardmaxwinsize then refuse .invalidInput "hard window size exceeded" s
  else .ok { s with body := { s.body with maxpos := s.body.cpylen + s.body.tgtlen } }

def delIndCase (s : Stream) : Step Stream := do
  let s ← takeCase takeByte true (fun s delInd => { s with delInd }) .dataLen s
  if s.delInd &&& 0xfffffff8 ≠ 0 then refuse .invalidInput "unrecognized delta indicator bits set" s
  else if s.delInd ≠ 0 then refuse .invalidInput "invalid delta indicator bits set" s
  else .ok s

/-- Another value for one of the sections. -/
def Stream.setSect (s : Stream) (name : SectName) (sect : Section) : Stream :=
  { s with sect := fun other => if other = name then sect else s.sect other }

def sectLenCase (name : SectName) (nstate : DecState) (s : Stream) : Step Stream :=
  takeCase takeSize true (fun s size => s.setSect name { s.sect name with size }) nstate s

/-- What the redundant length of the encoding has to be. -/
def enclenCheck (s : Stream) : Nat :=
  usize (1 + (sizeofSize s.body.tgtlen + sizeofSize (s.sect .data).size + sizeofSize (s.sect .inst).size +
      sizeofSize (s.sect .addr).size) + (s.sect .data).size + (s.sect .inst).size + (s.sect .addr).size +
    if s.checksummed then 4 else 0)

/-- The checksum of the window, most significant byte first. -/
def readCksum (s : Stream) : Step Stream := do
  let s ← takeBytes s.cksum 4 (fun s cksum => { s with cksum }) s
  .ok { s with adler32 := s.cksum.foldl (fun adler32 b => usize (adler32 <<< 8) ||| b.toNat) s.adler32 }

/-- The case ends with a return that lets the caller look at the header. -/
def ckSumCheck (s : Stream) : Step Stream :=
  if s.enclen ≠ enclenCheck s then refuse .invalidInput "incorrect encoding length (redundent)" s
  else .error (if s.currentWindow = 0 then .gotHeader else .winStart, s)

def ckSumCase (s : Stream) : Step Stream := do
  let s ← whenever s.checksummed readCksum s
  ckSumCheck { s with decState := .data }

/-! ## The sections -/

/-- So many bytes of the input are put in a section. -/
def Stream.fill (s : Stream) (name : SectName) (sectTake : Nat) : Stream :=
  let sect := s.sect name
  { s.setSect name { sect with
      buf := (if sect.pos = 0 then [] else sect.buf) ++ s.input.take sectTake
      pos := sect.pos + sectTake } with
    winbytes := usize (s.winbytes + sectTake)
    input := s.input.drop sectTake }

/-- A section is there. -/
def Stream.ready (s : Stream) (name : SectName) (nstate : DecState) : Stream :=
  let sect := s.sect name
  { s.setSect name { sect with buf := sect.buf.take sect.size, pos := 0 } with decState := nstate }

/-- `XD3_ALLOCSIZE` -/
def allocsize : Nat := 1 <<< 14

/-- `xd3_round_blksize` -/
def roundBlksize (sz blksz : Nat) : Nat :=
  if sz &&& (blksz - 1) ≠ 0 then usize (sz + (blksz - (sz &&& (blksz - 1)))) else sz

/-- Whether a section is in memory as a whole: in the input, when it is said to hold
it, or in the buffer of `xd3_decode_allocate`, which is none when its size goes round. -/
def Stream.holds (s : Stream) (name : SectName) (copy : Bool) : Bool :=
  let sect := s.sect name
  if copy = false ∧ sect.pos = 0 then sect.size ≤ s.input.length
  else sect.pos ≠ 0 ∨ sect.size ≤ roundBlksize sect.size allocsize

/-- The bytes that are wanted of a section, as far as they are there. -/
def takeSection (name : SectName) (nstate : DecState) (s : Stream) : Step Stream :=
  let sect := s.sect name
  if s.input.length < sect.size - sect.pos then .error (.input, s.fill name s.input.length)
  else .ok ((s.fill name (sect.size - sect.pos)).ready name nstate)

/-- `xd3_decode_section` -/
def decodeSection (name : SectName) (copy : Bool) (nstate : DecState) (s : Stream) : Step Stream :=
  if (s.sect name).size ≤ (s.sect name).pos then .ok (s.ready name nstate)
  else if s.input = [] then .error (.input, s)
  else if s.holds name copy then takeSection name nstate s
  else .error (.undefined, s)

namespace Buffers

/-- Of two buffers one has been freed, and its address may be that of the other: it is
not known whether they are found to be the same. -/
def mixed (buffers : Buffers) : Bool :=
  buffers.decLastwin ≠ buffers.nextOut ∧ buffers.decLastwin ≠ 0 ∧ buffers.nextOut ≠ 0

/-- For `VCD_TARGET`: a second buffer is needed while the last window is in this one. -/
def reuse (buffers : Buffers) : Buffers :=
  if buffers.decLastwin = buffers.nextOut then { buffers with nextOut := 0, spaceOut := 0 } else buffers

/-- `dec_buffer` is freed, and one that is large enough allocated; there is memory enough. -/
def grow (buffers : Buffers) (tgtlen : Nat) : Buffers :=
  if buffers.spaceOut < tgtlen then
    { buffers with
      decBuffer := buffers.decBuffer + 1
      nextOut := buffers.decBuffer + 1
      spaceOut := roundBlksize tgtlen allocsize }
  else buffers

/-- The bytes that can be written at `next_out`: none in a buffer that has been freed. -/
def room (buffers : Buffers) : Nat := if buffers.nextOut = buffers.decBuffer then buffers.spaceOut else 0

/-- What `DEC_FINISH` does for `VCD_TARGET`. -/
def swap (buffers : Buffers) : Buffers :=
  if buffers.decLastwin = 0 then { buffers with decLastwin := buffers.nextOut, decLastspace := buffers.spaceOut }
  else
    { buffers with
      decLastwin := buffers.nextOut
      nextOut := buffers.decLastwin
      decLastspace := buffers.spaceOut
      spaceOut := buffers.decLastspace }

end Buffers

/-- The stream with the buffers of a window and what they are filled from. -/
def Stream.setUp (s : Stream) (buffers : Buffers) : Stream :=
  { s with
    buffers
    body := { s.body with
      room := buffers.room
      copiesTarget := s.copiesTarget
      adler32 := if s.checksummed then some s.adler32 else none
      data := (s.sect .data).buf
      inst := (s.sect .inst).buf
      addr := (s.sect .addr).buf } }

/-- `xd3_decode_setup_buffers` -/
def setupBuffers (s : Stream) : Step Stream :=
  if s.copiesTarget then
    if s.cpyoff < s.laststart then refuse .invalidInput "unsupported VCD_TARGET offset" s
    else if s.buffers.mixed then .error (.undefined, s)
    else .ok (s.setUp (s.buffers.reuse.grow s.body.tgtlen))
  else .ok (s.setUp (s.buffers.grow s.body.tgtlen))

/-- The three sections, with or without copying. -/
def decodeSections (copy : Bool) (s : Stream) : Step Stream := do
  let s ← whenever (s.decState = .data) (decodeSection .data copy .inst) s
  let s ← whenever (s.decState = .inst) (decodeSection .inst copy .addr) s
  decodeSection .addr copy .emit s

/-- Whether the sections are copied: they are not all there. -/
def Stream.copies (s : Stream) : Bool :=
  let need := usize ((s.sect .inst).size + (s.sect .addr).size + (s.sect .data).size)
  let more := usize (need + 2 ^ 32 - s.winbytes)
  min more s.input.length ≠ more

/-- The states in which the sections are taken. -/
def DecState.sections : List DecState := [.data, .inst, .addr]

/-- The sections, and what is set up for them. -/
def takeSections (s : Stream) : Step Stream := do
  let s ← decodeSections s.copies s
  setupBuffers s

/-- `xd3_decode_sections` -/
def sectionsCase (s : Stream) : Step Stream :=
  if s.decState ∈ DecState.sections then takeSections s else refuse .invalidInput "internal error" s

/-! ## Output -/

/-- `xd3_decode_finish_window` -/
def finishWindow (s : Stream) : Stream :=
  { s with
    winbytes := 0
    decState := .finish
    sect := fun name => { s.sect name with pos := 0 } }

/-- The block and the offset of the copy window. -/
def Stream.placed (s : Stream) : Stream :=
  if s.copiesSource then
    { s with body := { s.body with src := { s.body.src with
      cpyoffBlocks := (s.body.src.blksizeDiv s.cpyoff).1
      cpyoffBlkoff := (s.body.src.blksizeDiv s.cpyoff).2 } } }
  else s

def emitCase (s : Stream) : Step Stream :=
  let s := s.placed
  let (answer, body) := decodeEmit s.body
  let s := { s with body }
  .error (answer, if answer = .output then finishWindow s else s)

def finishCase (s : Stream) : Step Stream :=
  .error (.winFinish,
    { s with
      buffers := if s.copiesTarget then s.buffers.swap else s.buffers
      laststart := s.winstart
      windowCount := s.windowCount + 1
      decState := .winInd })

section

variable (applyTableEncoding : Nat → Nat → Bytes → Except Failure (List Dinst))

/-- The cases of the `switch`, each with its labels. -/
def decodeCases : List (List DecState × (Stream → Step Stream)) := [
  ([.vcHead], vcHeadCase),
  ([.hdrInd], hdrIndCase),
  ([.secondId], secondIdCase),
  ([.tabLen], tabLenCase),
  ([.near], nearCase),
  ([.same], sameCase),
  ([.tabDat], tabDatCase applyTableEncoding),
  ([.appLen], appLenCase),
  ([.appDat], appDatCase),
  ([.winInd], winIndCase),
  ([.cpyLen], cpyLenCase),
  ([.cpyOff], cpyOffCase),
  ([.encLen], encLenCase),
  ([.tgtLen], tgtLenCase),
  ([.delInd], delIndCase),
  ([.dataLen], sectLenCase .data .instLen),
  ([.instLen], sectLenCase .inst .addrLen),
  ([.addrLen], sectLenCase .addr .ckSum),
  ([.ckSum], ckSumCase),
  ([.data, .inst, .addr], sectionsCase),
  ([.emit], emitCase),
  ([.finish], finishCase)]

/-- One case after another. -/
def runCases : List (List DecState × (Stream → Step Stream)) → Stream → Step Stream
  | [], s => .ok s
  | case :: cases, s => case.2 s >>= runCases cases

/-- The cases from a state on. -/
def casesFrom (state : DecState) : List (List DecState × (Stream → Step Stream)) :=
  (decodeCases applyTableEncoding).dropWhile fun case => state ∉ case.1

/-- `xd3_decode_input` -/
def decodeInput (s : Stream) : Answer × Stream :=
  match runCases (casesFrom applyTableEncoding s.decState) s with
  | .error returned => returned
  | .ok s => (.fails ⟨.invalidInput, "invalid state"⟩, s)

end

/-! ## The caller -/

/-- `xd3_avail_input` -/
def availInput (s : Stream) (input : Bytes) : Stream := { s with input }

/-- `xd3_consume_output` -/
def consumeOutput (s : Stream) : Stream := { s with body := { s.body with out := [] } }

/-- The caller has read the block that was asked for. -/
def setBlock (s : Stream) (block : Bytes) : Stream :=
  { s with body := { s.body with src := { s.body.src with curblk := block, curblkno := s.body.src.getblkno } } }

/-- The stream after `xd3_config_stream` and `xd3_set_source`, with blocks of `2 ^ shiftby` bytes. -/
def startStream (shiftby : Nat) : Stream where
  decState := .vcHead
  input := []
  part32 := 0
  part64 := 0
  magic := []
  hdrInd := 0
  secondid := 0
  codetblsz := 0
  codetbl := []
  appheadsz := 0
  appheader := []
  windowCount := 0
  currentWindow := 0
  winstart := 0
  laststart := 0
  winInd := 0
  delInd := 0
  cpyoff := 0
  enclen := 0
  cksum := []
  adler32 := 0
  winbytes := 0
  sect _ := {}
  buffers := {}
  body := {
    codeTable := []
    acache := .init 0 0
    data := []
    inst := []
    addr := []
    copiesTarget := false
    cpylen := 0
    tgtlen := 0
    position := 0
    maxpos := 0
    room := 0
    adler32 := none
    src := { shiftby, curblkno := 2 ^ 64 - 1, curblk := [], getblkno := 0, cpyoffBlocks := 0, cpyoffBlkoff := 0 }
    current1 := {}
    current2 := {}
    out := [] }

/-- `xd3_close_stream`, of a decoder: whether it is between two windows. -/
def closeStream (s : Stream) : Except Failure Unit :=
  match s.decState with
  | .vcHead | .winInd | .aborted => .ok ()
  | _ => .error ⟨.internal, "EOF in decode"⟩

end OpenDelta.Vcdiff
