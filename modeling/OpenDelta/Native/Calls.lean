import OpenDelta.Data.Computation
import OpenDelta.Zip.Adjust

/-!
# System calls of the native code

Every call with its result, the answers the outside gives, and the helpers
around single calls. What `read` leaves in the buffer is part of the answer: the
bytes read, or, when it fails, whatever the memory at the buffer holds.
-/

namespace OpenDelta.Native
open ByteFile OpenDelta.Computation

/-- Where a `read` stands: in `xseekread`, in the loops of `xfilecopy` and
`xdecompress`, and in `dedelta`, of the delta and of a source block. -/
inductive Reader where
  | seekread | filecopy | decompress | delta | source
  deriving DecidableEq, Repr

/-- What `xd3_decode_input` returns; `error` is every other value. -/
inductive Status where
  | input | output | getSrcBlk | gotHeader | winStart | winFinish | error
  deriving DecidableEq, Repr

/-- The files `dedelta` opens. -/
inductive FileRole where
  | input | source | delta | out
  deriving DecidableEq, Repr

/-- A call with its result; `none` is `-1`. -/
inductive SystemCall where
  | opens (file : FileRole) (opened : Bool)
  | unlink
  | seekEnd (moved : Bool)
  | lseek (moved : Bool)
  | malloc (given : Bool)
  | mallocUnchecked (given : Bool)
  | read (reader : Reader) (asked : Nat) (result : Option Nat)
  | write (asked : Nat) (result : Option Nat)
  | inflateInit2 (ready : Bool)
  | inflate (ret : Zip.ZRet)
  | configStream (ready : Bool)
  | setSource (ready : Bool)
  | decodeInput (status : Status)
  deriving DecidableEq, Repr

/-- The answers of the outside, by the number of calls made before: how many
bytes `read` and `write` would deal with (`none` is `-1`), whether the other
calls work, and the memory behind a buffer that was not read into. `sizeMax` is
the largest `size_t`, which has at least 32 bits. -/
structure Platform where
  sizeMax : Nat
  read : Nat → Option Nat
  write : Nat → Option Nat
  works : Nat → Bool
  memory : Nat → Bytes
  sizeMax_large : 2 ^ 32 - 1 ≤ sizeMax

namespace Platform

variable (P : Platform)

/-- A result as the code compares it with a count: `-1` becomes the largest one. -/
def asSize : Option Nat → Nat
  | none => P.sizeMax
  | some n => n

/-- The result of a call that is asked for so many bytes; as many as the largest
`size_t` are more than the address space allows. -/
def granted (asked : Nat) (answer : Option Nat) : Option Nat :=
  if P.sizeMax ≤ asked then none else answer.map (min · asked)

/-- The bytes a `read` delivers. -/
def delivered (fd : Bytes) (pos asked n : Nat) : Option Bytes := (P.granted asked (P.read n)).map (slice fd pos)

/-- A `read`, as the result and the bytes at the buffer. -/
def readAnswer (reader : Reader) (fd : Bytes) (pos asked n : Nat) : (Option Nat × Bytes) × SystemCall :=
  let data := P.delivered fd pos asked n
  ((data.map List.length, data.getD (P.memory n)), .read reader asked (data.map List.length))

def writeAnswer (asked n : Nat) : Option Nat × SystemCall :=
  (P.granted asked (P.write n), .write asked (P.granted asked (P.write n)))

end Platform

/-- The call makes the function that makes it return 0. -/
def SystemCall.aborts (P : Platform) : SystemCall → Prop
  | opens _ opened => opened = false
  | unlink => False
  | seekEnd _ => False
  | lseek moved => moved = false
  | malloc given => given = false
  | mallocUnchecked _ => False
  | read .seekread asked result => P.asSize result ≠ asked
  | read .filecopy _ result => result = some 0
  | read .decompress _ result => result = some 0
  | read _ _ _ => False
  | write asked result => P.asSize result ≠ asked
  | inflateInit2 ready => ready = false
  | inflate ret => ret = .streamError ∨ ret = .needDict ∨ ret = .dataError ∨ ret = .memError
  | configStream ready => ready = false
  | setSource ready => ready = false
  | decodeInput status => status = .error

/-- A `read` that returns `-1`. -/
def SystemCall.readFails : SystemCall → Prop
  | read _ _ none => True
  | _ => False

abbrev Program (α : Type) := Computation SystemCall α

/-! ## Helpers -/

section Helpers

variable (P : Platform)

/-- A call that must work. -/
def must (record : Bool → SystemCall) : Program Unit :=
  attempt fun n => (if P.works n then some () else none, record (P.works n))

def xseekread (fd : Bytes) (offset bytes : Nat) : Program Bytes := do
  must P .lseek
  attempt fun n =>
    let r := P.readAnswer .seekread fd offset bytes n
    (if P.asSize r.1.1 = bytes then some r.1.2 else none, r.2)

/-- A call whose result the code goes on with. -/
def ask (record : Bool → SystemCall) : Program Bool := call fun n => (P.works n, record (P.works n))

/-- A `write` that must write everything. -/
def writeAll (asked : Nat) : Program Unit :=
  attempt fun n =>
    let r := P.writeAnswer asked n
    (if P.asSize r.1 = asked then some () else none, r.2)

def xseekwrite (fd : Bytes) (offset : Nat) (buf : Bytes) : Program Bytes := do
  must P .lseek
  writeAll P buf.length
  return pwrite fd offset buf

/-- A `read` of a copying loop, which gives up at 0 bytes. -/
def loopRead (reader : Reader) (fd : Bytes) (pos asked : Nat) : Program (Option Nat × Bytes) :=
  attempt fun n =>
    (if (P.readAnswer reader fd pos asked n).1.1 = some 0 then none else some (P.readAnswer reader fd pos asked n).1,
      (P.readAnswer reader fd pos asked n).2)

/-! ## `xfilecopy` -/

/-- The variables of the copying loop. -/
structure CopyState where
  left : Nat
  posIn : Nat
  posOut : Nat
  fdOut : Bytes

/-- The test of the loop, and its body. `r` is a `size_t`, so `r <= 0` is true
of 0 only, and `left -= r` wraps. -/
def filecopyTurn (fdIn : Bytes) (st : CopyState) : Program (Turn CopyState Bytes) :=
  if st.left = 0 then return .done st.fdOut
  else do
    let wanted := if st.left < Zip.chunk then st.left else Zip.chunk
    let (result, buf) ← loopRead P .filecopy fdIn st.posIn wanted
    writeAll P (P.asSize result)
    let data := if result = none then [] else buf
    return .again {
      left := (st.left + (P.sizeMax + 1) - P.asSize result) % (P.sizeMax + 1)
      posIn := st.posIn + data.length
      posOut := st.posOut + data.length
      fdOut := pwrite st.fdOut st.posOut data }

def xfilecopy (fdIn fdOut : Bytes) (offsetIn offsetOut bytes : Nat) : Program Bytes := do
  must P .lseek
  must P .lseek
  must P .malloc
  loop (filecopyTurn P fdIn) { left := bytes, posIn := offsetIn, posOut := offsetOut, fdOut }

/-! ## `xdecompress` -/

variable (Z : Zip.Zlib)

/-- The variables of the inner loop. -/
structure InflateState where
  strm : Z.Stream
  buf : Bytes
  fdOut : Bytes
  posOut : Nat

/-- One `inflate` and the `write` of what it put out. -/
def inflateTurn (st : InflateState Z) : Program (Turn (InflateState Z) (Zip.ZRet × InflateState Z)) := do
  let step := Z.inflate st.strm st.buf Zip.chunk
  attempt fun _ =>
    (match step.ret with
      | .streamError | .needDict | .dataError | .memError => none
      | _ => some (), .inflate step.ret)
  writeAll P step.out.length
  let st := { strm := step.stream, buf := st.buf.drop step.used, fdOut := pwrite st.fdOut st.posOut step.out,
              posOut := st.posOut + step.out.length }
  return if step.out.length = Zip.chunk then .again st else .done (step.ret, st)

/-- The variables of the outer loop. -/
structure DecompressState where
  strm : Z.Stream
  posIn : Nat
  fdOut : Bytes
  posOut : Nat

/-- One buffer of input. `avail_in` is unsigned, so the test for a failed `read`
is never true, and what is inflated then is memory. At the end of the input
`ret` is not `Z_STREAM_END`, and the function returns 0. -/
def decompressTurn (fdIn : Bytes) (st : DecompressState Z) : Program (Turn (DecompressState Z) Bytes) := do
  let (result, buf) ← loopRead P .decompress fdIn st.posIn Zip.chunk
  let availIn := if result = none then buf.take (2 ^ 32 - 1) else buf
  let (ret, inner) ← loop (inflateTurn P Z)
    { strm := st.strm, buf := availIn, fdOut := st.fdOut, posOut := st.posOut }
  return if ret = .streamEnd then .done inner.fdOut
    else .again { strm := inner.strm, posIn := st.posIn + result.getD 0, fdOut := inner.fdOut, posOut := inner.posOut }

/-- `xdecompress`; the number of compressed bytes is never used. -/
def xdecompress (fdIn fdOut : Bytes) (offsetIn offsetOut _bytes : Nat) : Program Bytes := do
  must P .lseek
  must P .lseek
  let strm ← attempt fun _ => (Z.inflateInit2, .inflateInit2 Z.inflateInit2.isSome)
  loop (decompressTurn P Z fdIn) { strm, posIn := offsetIn, fdOut, posOut := offsetOut }

end Helpers

/-! ## Calls that make the code give up -/

section Failing

variable (P : Platform)

theorem must_failsBy {record : Bool → SystemCall} (exact : ∀ worked, (record worked).aborts P ↔ worked = false) :
    FailsBy (SystemCall.aborts P) (must P record) := by
  refine .attempt fun n => (exact _).trans ?_
  cases P.works n with
  | true => exact ⟨nofun, nofun⟩
  | false => exact ⟨fun _ => rfl, fun _ => rfl⟩

theorem must_lseek_failsBy : FailsBy (SystemCall.aborts P) (must P .lseek) := must_failsBy P fun _ => Iff.rfl

theorem xseekread_failsBy (fd : Bytes) (offset bytes : Nat) :
    FailsBy (SystemCall.aborts P) (xseekread P fd offset bytes) := by
  refine .bind (must_lseek_failsBy P) fun _ => .attempt fun n => ?_
  show P.asSize _ ≠ bytes ↔ (if P.asSize _ = bytes then _ else _) = none
  split
  · exact ⟨fun ne => absurd ‹_› ne, nofun⟩
  · exact ⟨fun _ => rfl, fun _ => ‹_›⟩

theorem writeAll_failsBy (asked : Nat) : FailsBy (SystemCall.aborts P) (writeAll P asked) := by
  refine .attempt fun n => ?_
  show P.asSize _ ≠ asked ↔ (if P.asSize _ = asked then _ else _) = none
  split
  · exact ⟨fun ne => absurd ‹_› ne, nofun⟩
  · exact ⟨fun _ => rfl, fun _ => ‹_›⟩

theorem xseekwrite_failsBy (fd : Bytes) (offset : Nat) (buf : Bytes) :
    FailsBy (SystemCall.aborts P) (xseekwrite P fd offset buf) :=
  .bind (must_lseek_failsBy P) fun _ => .bind (writeAll_failsBy P _) fun _ => .pure _

/-- A `read` in a copying loop makes the code give up at 0 bytes only. -/
theorem loopRead_failsBy {reader : Reader} (fd : Bytes) (pos asked : Nat)
    (exact : ∀ result, (SystemCall.read reader asked result).aborts P ↔ result = some 0) :
    FailsBy (SystemCall.aborts P) (loopRead P reader fd pos asked) := by
  refine .attempt fun n => (exact _).trans ?_
  show _ = some 0 ↔ (if _ = some 0 then _ else _) = none
  split
  · exact ⟨fun _ => rfl, fun _ => ‹_›⟩
  · exact ⟨fun eq => absurd eq ‹_›, nofun⟩

theorem xfilecopy_failsBy (fdIn fdOut : Bytes) (offsetIn offsetOut bytes : Nat) :
    FailsBy (SystemCall.aborts P) (xfilecopy P fdIn fdOut offsetIn offsetOut bytes) := by
  refine .bind (must_lseek_failsBy P) fun _ => .bind (must_lseek_failsBy P) fun _ =>
    .bind (must_failsBy P fun _ => Iff.rfl) fun _ => .loop (fun st => ?_) _
  unfold filecopyTurn
  split
  · exact .pure _
  · refine .bind (loopRead_failsBy P fdIn st.posIn _ fun _ => Iff.rfl) fun r => ?_
    exact .bind (writeAll_failsBy P _) fun _ => .pure _

variable (Z : Zip.Zlib)

theorem inflateTurn_failsBy (st : InflateState Z) : FailsBy (SystemCall.aborts P) (inflateTurn P Z st) := by
  refine .bind (.attempt fun _ => ?_) fun _ => .bind (writeAll_failsBy P _) fun _ => .pure _
  simp only [SystemCall.aborts]
  cases (Z.inflate st.strm st.buf Zip.chunk).ret <;> simp

theorem xdecompress_failsBy (fdIn fdOut : Bytes) (offsetIn offsetOut bytes : Nat) :
    FailsBy (SystemCall.aborts P) (xdecompress P Z fdIn fdOut offsetIn offsetOut bytes) := by
  refine .bind (must_lseek_failsBy P) fun _ => .bind (must_lseek_failsBy P) fun _ => .bind (.attempt fun _ => ?_)
    fun strm => .loop (fun st => ?_) _
  · show Z.inflateInit2.isSome = false ↔ _
    cases Z.inflateInit2 with
    | none => exact ⟨fun _ => rfl, fun _ => rfl⟩
    | some strm => exact ⟨nofun, nofun⟩
  · refine .bind (loopRead_failsBy P fdIn st.posIn _ fun _ => Iff.rfl) fun r => ?_
    exact .bind (.loop (inflateTurn_failsBy P Z) _) fun _ => .pure _

end Failing

/-! ## Coming to an end -/

section Ending

variable {P : Platform}

theorem Platform.granted_le {asked n : Nat} {answer : Option Nat} (given : P.granted asked answer = some n) :
    n ≤ asked := by
  unfold granted at given
  split at given
  · cases given
  · obtain ⟨c, -, rfl⟩ := Option.map_eq_some_iff.mp given
    exact Nat.min_le_right ..

/-- What is read is in the file, and was asked for. -/
theorem Platform.delivered_length {fd data : Bytes} {pos asked n : Nat} (read : P.delivered fd pos asked n = some data) :
    data.length ≤ asked ∧ data.length ≤ fd.length - pos := by
  obtain ⟨c, given, rfl⟩ := Option.map_eq_some_iff.mp read
  have le := granted_le given
  rw [slice_length]
  omega

variable {reader : Reader} {fd : Bytes} {pos asked : Nat}

/-- A `read` that does not fail delivers bytes of the file. -/
theorem Platform.readAnswer_clean {n : Nat} (clean : ¬(P.readAnswer reader fd pos asked n).2.readFails) :
    ∃ data, P.delivered fd pos asked n = some data ∧
      (P.readAnswer reader fd pos asked n).1 = (some data.length, data) ∧
      data.length ≤ asked ∧ data.length ≤ fd.length - pos := by
  unfold readAnswer at clean ⊢
  cases read : P.delivered fd pos asked n with
  | none =>
    rw [read] at clean
    exact absurd trivial clean
  | some data => exact ⟨data, rfl, rfl, delivered_length read⟩

/-- A `read` of a copying loop that does not fail delivers something. -/
theorem loopRead_returns {n : Nat} {result : Option Nat} {buf : Bytes} {calls : List SystemCall}
    (returns : Computation.Returns (loopRead P reader fd pos asked) n (result, buf) calls)
    (clean : ∀ c ∈ calls, ¬c.readFails) :
    result = some buf.length ∧ 0 < buf.length ∧ buf.length ≤ asked ∧ buf.length ≤ fd.length - pos := by
  obtain ⟨answered, rfl⟩ := returns_attempt.mp returns
  obtain ⟨data, -, answer, bounds⟩ := Platform.readAnswer_clean (clean _ (List.mem_singleton_self _))
  rw [answer] at answered
  split at answered
  · cases answered
  · rename_i nonzero
    cases answered
    exact ⟨rfl, Nat.pos_of_ne_zero fun zero => nonzero (congrArg some zero), bounds⟩

theorem must_live (record : Bool → SystemCall) : Live SystemCall.readFails (must P record) := .attempt _

theorem xseekread_live (fd : Bytes) (offset bytes : Nat) :
    Live SystemCall.readFails (xseekread P fd offset bytes) := .bind (must_live _) fun _ => .attempt _

theorem writeAll_live (asked : Nat) : Live SystemCall.readFails (writeAll P asked) := .attempt _

theorem xseekwrite_live (fd : Bytes) (offset : Nat) (buf : Bytes) :
    Live SystemCall.readFails (xseekwrite P fd offset buf) :=
  .bind (must_live _) fun _ => .bind (writeAll_live _) fun _ => .pure _

/-- Every turn without a failing `read` makes `left` smaller. -/
theorem filecopyTurn_less {fdIn : Bytes} {st st' : CopyState} {n : Nat} {calls : List SystemCall}
    (small : st.left ≤ P.sizeMax) (returns : Computation.Returns (filecopyTurn P fdIn st) n (.again st') calls)
    (clean : ∀ c ∈ calls, ¬c.readFails) : st'.left ≤ P.sizeMax ∧ st'.left < st.left := by
  unfold filecopyTurn at returns
  split at returns
  · exact nomatch (returns_pure.mp returns).1
  · rename_i nonzero
    obtain ⟨⟨result, buf⟩, read, rest, first, second, rfl⟩ := returns_bind.mp returns
    obtain ⟨rfl, positive, wanted, -⟩ := loopRead_returns first fun c member =>
      clean c (List.mem_append_left _ member)
    obtain ⟨_, _, _, _, last, -⟩ := returns_bind.mp second
    obtain ⟨same, -⟩ := returns_pure.mp last
    cases same
    have le : buf.length ≤ st.left := by
      split at wanted <;> omega
    have rest : (st.left + (P.sizeMax + 1) - buf.length) % (P.sizeMax + 1) = st.left - buf.length := by
      rw [Nat.sub_add_comm le, Nat.add_mod_right, Nat.mod_eq_of_lt (by omega)]
    show (st.left + (P.sizeMax + 1) - buf.length) % (P.sizeMax + 1) ≤ _ ∧
      (st.left + (P.sizeMax + 1) - buf.length) % (P.sizeMax + 1) < _
    rw [rest]
    omega

theorem xfilecopy_live (fdIn fdOut : Bytes) (offsetIn offsetOut : Nat) {bytes : Nat} (small : bytes ≤ P.sizeMax) :
    Live SystemCall.readFails (xfilecopy P fdIn fdOut offsetIn offsetOut bytes) := by
  refine .bind (must_live _) fun _ => .bind (must_live _) fun _ => .bind (must_live _) fun _ => ?_
  refine live_loop_measure CopyState.left (fun st => st.left ≤ P.sizeMax) (fun st _ => ?_)
    (fun st n st' calls small returns clean => filecopyTurn_less small returns clean) small
  unfold filecopyTurn
  split
  · exact .pure _
  · exact .bind (.attempt _) fun _ => .bind (writeAll_live _) fun _ => .pure _

variable {Z : Zip.Zlib}

/-- Every further turn has taken a whole output buffer from what is pending. -/
theorem inflateTurn_less {st st' : InflateState Z} {n : Nat} {calls : List SystemCall}
    (returns : Computation.Returns (inflateTurn P Z st) n (.again st') calls) :
    Z.pending st'.strm st'.buf < Z.pending st.strm st.buf := by
  obtain ⟨_, _, _, _, second, -⟩ := returns_bind.mp returns
  obtain ⟨_, _, _, _, last, -⟩ := returns_bind.mp second
  obtain ⟨same, -⟩ := returns_pure.mp last
  have shrinks := Z.pending_step st.strm st.buf Zip.chunk
  split at same
  · rename_i full
    cases same
    have positive : 0 < Zip.chunk := by decide
    show Z.pending (Z.inflate st.strm st.buf Zip.chunk).stream (st.buf.drop (Z.inflate st.strm st.buf Zip.chunk).used) < _
    omega
  · cases same

theorem inflate_live (st : InflateState Z) : Live SystemCall.readFails (loop (inflateTurn P Z) st) :=
  live_loop_measure (fun st => Z.pending st.strm st.buf) (fun _ => True)
    (fun _ _ => .bind (.attempt _) fun _ => .bind (writeAll_live _) fun _ => .pure _)
    (fun _ _ _ _ _ returns _ => ⟨trivial, inflateTurn_less returns⟩) trivial

/-- Every turn without a failing `read` comes further in the input. -/
theorem decompressTurn_less {fdIn : Bytes} {st st' : DecompressState Z} {n : Nat} {calls : List SystemCall}
    (returns : Computation.Returns (decompressTurn P Z fdIn st) n (.again st') calls) (clean : ∀ c ∈ calls, ¬c.readFails) :
    fdIn.length - st'.posIn < fdIn.length - st.posIn := by
  obtain ⟨⟨result, buf⟩, read, rest, first, second, rfl⟩ := returns_bind.mp returns
  obtain ⟨rfl, positive, -, inside⟩ := loopRead_returns first fun c member => clean c (List.mem_append_left _ member)
  obtain ⟨⟨ret, inner⟩, _, _, _, last, -⟩ := returns_bind.mp second
  obtain ⟨same, -⟩ := returns_pure.mp last
  split at same
  · cases same
  · cases same
    show fdIn.length - (st.posIn + buf.length) < _
    omega

theorem xdecompress_live (fdIn fdOut : Bytes) (offsetIn offsetOut bytes : Nat) :
    Live SystemCall.readFails (xdecompress P Z fdIn fdOut offsetIn offsetOut bytes) := by
  refine .bind (must_live _) fun _ => .bind (must_live _) fun _ => .bind (.attempt _) fun strm => ?_
  refine live_loop_measure (fun st => fdIn.length - st.posIn) (fun _ => True) (fun st _ => ?_)
    (fun _ _ _ _ _ returns clean => ⟨trivial, decompressTurn_less returns clean⟩) trivial
  exact .bind (.attempt _) fun _ => .bind (inflate_live _) fun _ => .pure _

end Ending

end OpenDelta.Native
