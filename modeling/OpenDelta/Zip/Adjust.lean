import OpenDelta.Zip.Format

/-!
# `zipadjust.c`

The functions of `zipadjust.c` on regular files: a descriptor is the contents
of its file, a read delivers what is there, a write succeeds. What a call can
still do is `return 0` (`Fault.failed`) or index outside one of its buffers
(`Fault.undefined`). Offsets are `size_t` and 64-bit `off_t`; `out_index` and
the header fields wrap at their own widths.

zlib is not part of the repository: `Zlib` is the interface `xdecompress`
drives, chunk by chunk, in the order the code does.
-/

namespace OpenDelta.Zip
open ByteFile LittleEndian

/-- How a call ends that does not produce its result. -/
inductive Fault where
  | failed
  | undefined
  deriving DecidableEq, Repr

abbrev Call := Except Fault

/-- `CHUNK` of `xfilecopy` and `xdecompress`. -/
def chunk : Nat := 256 * 1024

def xseekread (fd : Bytes) (offset bytes : Nat) : Call Bytes :=
  if (slice fd offset bytes).length = bytes then .ok (slice fd offset bytes) else .error .failed

def xseekwrite (fd : Bytes) (offset : Nat) (buf : Bytes) : Bytes := pwrite fd offset buf

/-- The loop of `xfilecopy`. Every turn copies at least one byte, so `left`
turns are enough. -/
def xfilecopyLoop (fdIn : Bytes) : Nat → Nat → Nat → Nat → Bytes → Call Bytes
  | 0, _, _, _, fdOut => .ok fdOut
  | fuel + 1, left, posIn, posOut, fdOut =>
    if left = 0 then .ok fdOut
    else
      let wanted := if left < chunk then left else chunk
      let buf := slice fdIn posIn wanted
      if buf.length = 0 then .error .failed
      else xfilecopyLoop fdIn fuel (left - buf.length) (posIn + buf.length) (posOut + buf.length)
        (pwrite fdOut posOut buf)

def xfilecopy (fdIn fdOut : Bytes) (offsetIn offsetOut bytes : Nat) : Call Bytes :=
  xfilecopyLoop fdIn bytes bytes offsetIn offsetOut fdOut

/-! ## Inflating -/

/-- The return codes of `inflate`. -/
inductive ZRet where
  | ok | streamEnd | needDict | dataError | memError | streamError | bufError
  deriving DecidableEq, Repr

/-- What one `inflate` call reports: its code, the stream after it, how much of
the input it used and what it wrote to the output buffer. -/
structure ZStep (Stream : Type) where
  ret : ZRet
  stream : Stream
  used : Nat
  out : Bytes

/-- The part of zlib `xdecompress` uses. `inflateInit2` may fail; `inflate` is
given a stream, the available input and the room for output. `pending` bounds
what the stream can still write for an input: deflate expands a finite input to
a finite output. -/
structure Zlib where
  Stream : Type
  inflateInit2 : Option Stream
  inflate : Stream → Bytes → Nat → ZStep Stream
  pending : Stream → Bytes → Nat
  pending_step : ∀ s buf room, pending (inflate s buf room).stream (buf.drop (inflate s buf room).used) +
    (inflate s buf room).out.length ≤ pending s buf

variable (Z : Zlib)

/-- The inner loop: inflate one input buffer until an output buffer is left
partly empty. Every further turn has filled a whole output buffer, so
`pending` turns are enough. -/
def inflateLoop : Nat → Z.Stream → Bytes → Bytes → Nat → Call (ZRet × Z.Stream × Bytes × Nat)
  | 0, _, _, _, _ => .error .failed
  | fuel + 1, strm, buf, fdOut, posOut =>
    let step := Z.inflate strm buf chunk
    match step.ret with
    | .streamError => .error .failed
    | .needDict | .dataError | .memError => .error .failed
    | ret =>
      let fdOut := pwrite fdOut posOut step.out
      if step.out.length = chunk then
        inflateLoop fuel step.stream (buf.drop step.used) fdOut (posOut + step.out.length)
      else .ok (ret, step.stream, fdOut, posOut + step.out.length)

/-- The outer loop: feed the input until the stream ends or the file does. -/
def xdecompressLoop (fdIn : Bytes) : Nat → ZRet → Z.Stream → Nat → Bytes → Nat → Call Bytes
  | 0, ret, _, _, fdOut, _ => if ret = .streamEnd then .ok fdOut else .error .failed
  | fuel + 1, ret, strm, posIn, fdOut, posOut =>
    let buf := slice fdIn posIn chunk
    if buf.length = 0 then if ret = .streamEnd then .ok fdOut else .error .failed
    else
      match inflateLoop Z (Z.pending strm buf + 1) strm buf fdOut posOut with
      | .error fault => .error fault
      | .ok (ret, strm, fdOut, posOut) =>
        if ret = .streamEnd then .ok fdOut
        else xdecompressLoop fdIn fuel ret strm (posIn + buf.length) fdOut posOut

/-- `xdecompress`; its last parameter, the number of compressed bytes, is never
used by the code. -/
def xdecompress (fdIn fdOut : Bytes) (offsetIn offsetOut _bytes : Nat) : Call Bytes :=
  match Z.inflateInit2 with
  | none => .error .failed
  | some strm => xdecompressLoop Z fdIn (fdIn.length + 1) .ok strm offsetIn fdOut offsetOut

/-! ## Finding the central directory -/

/-- The search loop of `zipadjust`, from `i` downwards; the first argument is
`i + 1`. `none` when no candidate's offset leads to a central header. -/
def findFooter (fin : Bytes) : Nat → Call (Option CentralFooter)
  | 0 => .ok none
  | i + 1 => do
    let magic ← xseekread fin i 4
    if word32 magic = magicCentralFooter then
      let footer := CentralFooter.decode (← xseekread fin i sizeofCentralFooter)
      let header := CentralHeader.decode
        (← xseekread fin footer.centralDirectoryOffset.toNat sizeofCentralHeader)
      if header.signature = magicCentralHeader then .ok (some footer) else findFooter fin i
    else findFooter fin i

/-- How many positions the search visits: it starts at the signed `int`
`size - 4` and goes down to 0. -/
def searchLength (size : UInt32) : Nat :=
  let i := (size - 4).toInt32.toInt
  if i < 0 then 0 else i.toNat + 1

/-! ## Rewriting the entries -/

/-- The variables of the rewriting loop: both directory buffers with their
indices, the output file and `out_index`. -/
structure AdjustState where
  directoryIn : Bytes
  inIndex : Nat
  directoryOut : Bytes
  outDirIndex : Nat
  fout : Bytes
  outIndex : UInt32

/-- The central header after "copying, rewriting, and correcting". `!8` is 0 in
C, so the mask clears every flag. -/
def rewriteCentral (decompress : Bool) (outIndex : UInt32) (h : CentralHeader) : CentralHeader :=
  let h := { h with offset := outIndex, flags := h.flags &&& 0 }
  let h := if decompress ∧ h.compressionMethod = 8 then
      { h with compressionMethod := 0, sizeCompressed := h.sizeUncompressed }
    else h
  { h with lengthExtra := 0, lengthComment := 0 }

/-- The local header, brought in line with the central one. -/
def rewriteLocal (central : CentralHeader) (l : LocalHeader) : LocalHeader :=
  { l with
    compressionMethod := central.compressionMethod
    flags := central.flags
    crc32 := central.crc32
    sizeUncompressed := central.sizeUncompressed
    sizeCompressed := central.sizeCompressed
    lengthExtra := 0 }

/-- Where the code looks for an entry's data: behind a local extra field taken
to be as long as the central one. -/
def dataPosition (h : CentralHeader) : Nat :=
  h.offset.toNat + sizeofLocalHeader + h.lengthFilename.toNat + h.lengthExtra.toNat

/-- The data of one entry, inflated or copied. -/
def writeData (fin : Bytes) (decompress : Bool) (h : CentralHeader) (fout : Bytes) (outIndex : Nat) :
    Call Bytes :=
  if decompress ∧ h.compressionMethod = 8 then
    xdecompress Z fin fout (dataPosition h) outIndex h.sizeCompressed.toNat
  else xfilecopy fin fout (dataPosition h) outIndex h.sizeCompressed.toNat

/-- One turn of the rewriting loop; `none` is its `break`. -/
def adjustEntry (fin : Bytes) (decompress : Bool) (st : AdjustState) : Call (Option AdjustState) := do
  if st.directoryIn.length < st.inIndex + 4 then .error .undefined
  else if word32 (slice st.directoryIn st.inIndex 4) ≠ magicCentralHeader then .ok none
  else if st.directoryIn.length < st.inIndex + sizeofCentralHeader then .error .undefined
  else
    let header := CentralHeader.decode (slice st.directoryIn st.inIndex sizeofCentralHeader)
    let nameLength := header.lengthFilename.toNat
    -- `filename[length] = 0` and the `memcpy` into `filename[1024]`
    if 1024 ≤ nameLength then .error .undefined
    else if st.directoryIn.length < st.inIndex + sizeofCentralHeader + nameLength then .error .undefined
    else
      let filename := slice st.directoryIn (st.inIndex + sizeofCentralHeader) nameLength
      let localHeader := LocalHeader.decode (← xseekread fin header.offset.toNat sizeofLocalHeader)
      let central := rewriteCentral decompress st.outIndex header
      let localHeader := rewriteLocal central localHeader
      let fout := xseekwrite st.fout st.outIndex.toNat localHeader.encode
      let outIndex := st.outIndex + UInt32.ofNat sizeofLocalHeader
      let fout := xseekwrite fout outIndex.toNat filename
      let outIndex := outIndex + header.lengthFilename.toUInt32
      let fout ← writeData Z fin decompress header fout outIndex.toNat
      let outIndex := outIndex + localHeader.sizeCompressed
      -- the header was rewritten in place, inside the input directory
      let directoryIn := pwrite st.directoryIn st.inIndex central.encode
      if st.directoryOut.length < st.outDirIndex + sizeofCentralHeader + nameLength then .error .undefined
      else
        let directoryOut := pwrite st.directoryOut st.outDirIndex
          (slice directoryIn st.inIndex (sizeofCentralHeader + nameLength))
        .ok (some {
          directoryIn
          inIndex := st.inIndex + sizeofCentralHeader + nameLength + header.lengthExtra.toNat +
            header.lengthComment.toNat
          directoryOut
          outDirIndex := st.outDirIndex + sizeofCentralHeader + nameLength
          fout
          outIndex })

/-- The rewriting loop. Every turn moves at least a header forward in the input
directory, so the directory's length is fuel enough. -/
def adjustLoop (fin : Bytes) (decompress : Bool) : Nat → AdjustState → Call AdjustState
  | 0, _ => .error .undefined
  | fuel + 1, st => do
    match ← adjustEntry Z fin decompress st with
    | none => .ok st
    | some st => adjustLoop fin decompress fuel st

/-- Directory and footer, written behind the last entry. -/
def finishArchive (footer : CentralFooter) (st : AdjustState) : Bytes :=
  let outSize := UInt32.ofNat st.outDirIndex
  let footer := { footer with
    centralDirectorySize := outSize
    centralDirectoryOffset := st.outIndex
    lengthComment := 0 }
  let fout := xseekwrite st.fout st.outIndex.toNat (st.directoryOut.take outSize.toNat)
  xseekwrite fout (st.outIndex + outSize).toNat footer.encode

/-- `zipadjust` on an input that could be opened: `ok` is a return of 1 with the
contents of the output file. -/
def zipadjust (fin : Bytes) (decompress : Bool) : Call Bytes := do
  let size := UInt32.ofNat fin.length
  match ← findFooter fin (searchLength size) with
  | none => .error .failed
  | some footer =>
    let position := footer.centralDirectoryOffset
    if position = 0 then .error .failed
    else
      let inSize := size - position
      let directoryIn ← xseekread fin position.toNat inSize.toNat
      let st ← adjustLoop Z fin decompress (inSize.toNat + 1)
        { directoryIn, inIndex := 0, directoryOut := List.replicate inSize.toNat 0, outDirIndex := 0,
          fout := [], outIndex := 0 }
      .ok (finishArchive footer st)

end OpenDelta.Zip
