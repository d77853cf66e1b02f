import OpenDelta.Native.Calls

/-!
# `dedelta`

The decoding driver of `delta.c`, call by call. The decoder itself, xdelta3, is
`Xdelta`: what the driver uses of it, and that it asks for input after finitely
many other returns.
-/

namespace OpenDelta.Native
open OpenDelta.Computation

/-- The decoder. `start` is the stream after `xd3_config_stream` and
`xd3_set_source`; `nextOut` are the `avail_out` bytes at `next_out`; `setBlock`
is `curblkno` set to `getblkno`, with these bytes as the `onblk` bytes of the
block. `pending` bounds what the decoder returns before it asks for input. -/
structure Xdelta where
  Stream : Type
  start : Stream
  setFlush : Stream → Stream
  availInput : Stream → Bytes → Stream
  decodeInput : Stream → Status × Stream
  nextOut : Stream → Bytes
  consumeOutput : Stream → Stream
  getblkno : Stream → Nat
  setBlock : Stream → Bytes → Stream
  closeStream : Stream → Int
  pending : Stream → Nat
  pending_output : ∀ s, (decodeInput s).1 = .output → pending (consumeOutput (decodeInput s).2) < pending s
  pending_getSrcBlk : ∀ s, (decodeInput s).1 = .getSrcBlk → ∀ block,
    pending (setBlock (decodeInput s).2 block) < pending s
  pending_notice : ∀ s, (decodeInput s).1 ∈ [.gotHeader, .winStart, .winFinish] →
    pending (decodeInput s).2 < pending s

/-- The variables of the loop. -/
structure DecodeState (X : Xdelta) where
  stream : X.Stream
  position : Nat
  eof : Bool

section

variable (P : Platform) (X : Xdelta)

/-- The buffer as the decoder gets it. The result is stored in 32 bits, so that
`-1` is `2 ^ 32 - 1`. -/
def available (result : Option Nat) (buf : Bytes) : Bytes := if result = none then buf.take (2 ^ 32 - 1) else buf

/-- The top of the loop: the next part of the delta. `r` is a `size_t`, so
`r <= 0` is true of 0 only. -/
def feed (fdelta : Bytes) (st : DecodeState X) : Program (DecodeState X) := do
  let (result, buf) ← call (P.readAnswer .delta fdelta st.position Zip.chunk)
  let stream := if result = some 0 then X.setFlush st.stream else st.stream
  return { stream := X.availInput stream (available result buf)
           position := st.position + result.getD 0
           eof := st.eof || result = some 0 }

/-- The output is written if there is any. -/
def writeOut (availOut : Nat) : Program Unit := if 0 < availOut then writeAll P availOut else return ()

/-- `process:`, one return of the decoder. `continue` goes to the test of the loop. -/
def processTurn (fsource fdelta : Bytes) (st : DecodeState X) : Program (Turn (DecodeState X) (DecodeState X)) := do
  let decoded := X.decodeInput st.stream
  attempt fun _ => (if decoded.1 = .error then none else some (), .decodeInput decoded.1)
  let st := { st with stream := decoded.2 }
  match decoded.1 with
  | .input => if st.eof then return .done st else return .again (← feed P X fdelta st)
  | .output =>
    writeOut P (X.nextOut st.stream).length
    return .again { st with stream := X.consumeOutput st.stream }
  | .getSrcBlk =>
    must P .lseek
    let (result, buf) ← call (P.readAnswer .source fsource (Zip.chunk * X.getblkno st.stream) Zip.chunk)
    return .again { st with stream := X.setBlock st.stream (available result buf) }
  | .gotHeader | .winStart | .winFinish | .error => return .again st

/-- What is done with three open files. Every failure in here returns at once.
The value is the state in which the stream is closed; the result of
`xd3_close_stream` is not looked at. -/
def decode (fsource fdelta : Bytes) : Program (DecodeState X) := do
  must P .malloc
  must P .malloc
  must P .configStream
  must P .setSource
  let st ← feed P X fdelta { stream := X.start, position := 0, eof := false }
  loop (processTurn P X fsource fdelta) st

/-- `dedelta`; a value is a return of 1. -/
def dedelta (fsource fdelta : Bytes) : Program (DecodeState X) := do
  let source ← ask P (.opens .source)
  let delta ← ask P (.opens .delta)
  let _ ← call fun _ => ((), .unlink)
  let out ← ask P (.opens .out)
  if source && delta && out then decode P X fsource fdelta
  else
    let _ ← call fun _ => ((), .unlink)
    giveUp

/-- Whether the output file is there after a call. -/
def presentAfter (present : Bool) : SystemCall → Bool
  | .unlink => false
  | .opens .out true => true
  | _ => present

def outPresent (calls : List SystemCall) : Bool := calls.foldl presentAfter false

end

/-! ## The run -/

section Run

variable {P : Platform} {X : Xdelta} {fsource fdelta : Bytes}

/-- The three files can be opened, in a run that starts after `n` calls. -/
def Platform.Opens (P : Platform) (n : Nat) : Prop :=
  P.works n = true ∧ P.works (n + 1) = true ∧ P.works (n + 3) = true

instance (n : Nat) : Decidable (P.Opens n) := inferInstanceAs (Decidable (_ ∧ _ ∧ _))

/-- The calls that open them. -/
def opening (P : Platform) (n : Nat) : List SystemCall :=
  [.opens .source (P.works n), .opens .delta (P.works (n + 1)), .unlink, .opens .out (P.works (n + 3))]

theorem dedelta_run_opens {n : Nat} (opens : P.Opens n) (fuel : Nat) :
    (dedelta P X fsource fdelta).run fuel n =
      (((decode P X fsource fdelta).run fuel (n + 4)).1,
        opening P n ++ ((decode P X fsource fdelta).run fuel (n + 4)).2) := by
  obtain ⟨source, delta, out⟩ := opens
  simp only [dedelta, ask, bind_run, call_run, Result.chain_ok, List.length_singleton]
  simp only [Nat.add_assoc, Nat.reduceAdd, source, delta, out, Bool.and_self, if_true, opening]
  rfl

theorem dedelta_run_closed {n : Nat} (closed : ¬P.Opens n) (fuel : Nat) :
    (dedelta P X fsource fdelta).run fuel n = (.error .failed, opening P n ++ [.unlink]) := by
  have not : ¬(P.works n && P.works (n + 1) && P.works (n + 3)) = true := by
    simpa only [Platform.Opens, Bool.and_eq_true, and_assoc] using closed
  simp only [dedelta, ask, bind_run, call_run, Result.chain_ok, List.length_singleton]
  simp only [Nat.add_assoc, Nat.reduceAdd, if_neg not, bind_run, call_run, Result.chain_ok, giveUp_run, opening]
  rfl

end Run

/-! ## Calls that make it give up -/

section Failing

variable (P : Platform) (X : Xdelta) (fsource fdelta : Bytes)

theorem readAnswer_failsBy {reader : Reader} (fd : Bytes) (pos asked : Nat)
    (never : ∀ result, ¬(SystemCall.read reader asked result).aborts P) :
    FailsBy (SystemCall.aborts P) (call (P.readAnswer reader fd pos asked)) := .call fun _ => never _

theorem feed_failsBy (st : DecodeState X) : FailsBy (SystemCall.aborts P) (feed P X fdelta st) :=
  .bind (readAnswer_failsBy P _ _ _ fun _ => id) fun _ => .pure _

theorem writeOut_failsBy (availOut : Nat) : FailsBy (SystemCall.aborts P) (writeOut P availOut) := by
  unfold writeOut
  split
  · exact writeAll_failsBy P _
  · exact .pure _

theorem processTurn_failsBy (st : DecodeState X) :
    FailsBy (SystemCall.aborts P) (processTurn P X fsource fdelta st) := by
  refine .bind (.attempt fun _ => ?_) fun _ => ?_
  · show _ = Status.error ↔ (if _ = Status.error then _ else _) = none
    split
    · exact ⟨fun _ => rfl, fun _ => ‹_›⟩
    · exact ⟨fun eq => absurd eq ‹_›, nofun⟩
  · dsimp only
    split
    · split
      · exact .pure _
      · exact .bind (feed_failsBy P X fdelta _) fun _ => .pure _
    · exact .bind (writeOut_failsBy P _) fun _ => .pure _
    · exact .bind (must_lseek_failsBy P) fun _ => .bind (readAnswer_failsBy P _ _ _ fun _ => id) fun _ => .pure _
    all_goals exact .pure _

theorem decode_failsBy : FailsBy (SystemCall.aborts P) (decode P X fsource fdelta) :=
  .bind (must_failsBy P fun _ => Iff.rfl) fun _ => .bind (must_failsBy P fun _ => Iff.rfl) fun _ =>
    .bind (must_failsBy P fun _ => Iff.rfl) fun _ => .bind (must_failsBy P fun _ => Iff.rfl) fun _ =>
    .bind (feed_failsBy P X fdelta _) fun st => .loop (processTurn_failsBy P X fsource fdelta) st

theorem opening_aborts (n : Nat) : (∃ c ∈ opening P n, c.aborts P) ↔ ¬P.Opens n := by
  simp only [opening, List.mem_cons, List.not_mem_nil, or_false, exists_eq_or_imp, exists_eq_left,
    SystemCall.aborts, Platform.Opens, false_or, not_and_or, Bool.not_eq_true]

theorem dedelta_failsBy : FailsBy (SystemCall.aborts P) (dedelta P X fsource fdelta) := by
  intro fuel n
  by_cases opens : P.Opens n
  · have opened : ∀ c ∈ opening P n, ¬c.aborts P := fun c member abort =>
      (opening_aborts P n).mp ⟨c, member, abort⟩ opens
    rw [dedelta_run_opens opens]
    refine (decode_failsBy P X fsource fdelta fuel (n + 4)).trans ⟨?_, ?_⟩
    · rintro ⟨c, member, abort⟩
      exact ⟨c, List.mem_append_right _ member, abort⟩
    · rintro ⟨c, member, abort⟩
      rcases List.mem_append.mp member with before | after
      · exact absurd abort (opened c before)
      · exact ⟨c, after, abort⟩
  · obtain ⟨c, member, abort⟩ := (opening_aborts P n).mpr opens
    rw [dedelta_run_closed opens]
    exact ⟨fun _ => ⟨c, List.mem_append_left _ member, abort⟩, fun _ => rfl⟩

end Failing

/-! ## Coming to an end -/

section Ending

variable {P : Platform} {X : Xdelta} (fsource fdelta : Bytes)

theorem feed_live (st : DecodeState X) : Live SystemCall.readFails (feed P X fdelta st) :=
  .bind (.attempt _) fun _ => .pure _

theorem writeOut_live (availOut : Nat) : Live SystemCall.readFails (writeOut P availOut) := by
  unfold writeOut
  split
  · exact writeAll_live _
  · exact .pure _

theorem processTurn_live (st : DecodeState X) : Live SystemCall.readFails (processTurn P X fsource fdelta st) := by
  refine .bind (.attempt _) fun _ => ?_
  dsimp only
  split
  · split
    · exact .pure _
    · exact .bind (feed_live fdelta _) fun _ => .pure _
  · exact .bind (writeOut_live _) fun _ => .pure _
  · exact .bind (must_live _) fun _ => .bind (.attempt _) fun _ => .pure _
  all_goals exact .pure _

/-- What the delta has left for the loop. -/
def DecodeState.rank (fdelta : Bytes) (st : DecodeState X) : Nat :=
  fdelta.length - st.position + if st.eof then 0 else 1

/-- One state of the loop is later than another. -/
def Later (fdelta : Bytes) (st' st : DecodeState X) : Prop :=
  Prod.Lex (· < ·) (· < ·) (st'.rank fdelta, X.pending st'.stream) (st.rank fdelta, X.pending st.stream)

theorem later_wf : WellFounded (Later (X := X) fdelta) :=
  InvImage.wf (fun st : DecodeState X => (st.rank fdelta, X.pending st.stream))
    (Prod.lex Nat.lt_wfRel Nat.lt_wfRel).wf

variable {fsource fdelta}

theorem feed_rank {st st' : DecodeState X} {n : Nat} {calls : List SystemCall}
    (returns : Computation.Returns (feed P X fdelta st) n st' calls) (clean : ∀ c ∈ calls, ¬c.readFails)
    (more : st.eof = false) : st'.rank fdelta < st.rank fdelta := by
  obtain ⟨⟨result, buf⟩, _, _, first, last, rfl⟩ := returns_bind.mp returns
  obtain ⟨answered, rfl⟩ := returns_attempt.mp first
  obtain ⟨data, -, answer, -, inside⟩ := Platform.readAnswer_clean
    (clean _ (List.mem_append_left _ (List.mem_singleton_self _)))
  rw [answer] at answered
  cases answered
  obtain ⟨rfl, -⟩ := returns_pure.mp last
  simp only [DecodeState.rank, more, Option.getD_some, Option.some.injEq, Bool.false_or, decide_eq_true_eq]
  split
  · simp
    omega
  · simp
    omega

theorem processTurn_later {st st' : DecodeState X} {n : Nat} {calls : List SystemCall}
    (returns : Computation.Returns (processTurn P X fsource fdelta st) n (.again st') calls)
    (clean : ∀ c ∈ calls, ¬c.readFails) : Later fdelta st' st := by
  obtain ⟨_, _, rest, first, second, rfl⟩ := returns_bind.mp returns
  obtain ⟨fine, -⟩ := returns_attempt.mp first
  have clean := fun c member => clean c (List.mem_append_right _ member)
  dsimp only at second
  split at second
  · split at second
    · exact nomatch (returns_pure.mp second).1
    · rename_i eof
      obtain ⟨fed, _, _, fedBy, last, rfl⟩ := returns_bind.mp second
      obtain ⟨same, rfl⟩ := returns_pure.mp last
      cases same
      have fewer := feed_rank fedBy (fun c member => clean c (List.mem_append_left _ member))
        (Bool.eq_false_iff.mpr eof)
      exact .left _ _ fewer
  · obtain ⟨_, _, _, _, last, -⟩ := returns_bind.mp second
    obtain ⟨same, -⟩ := returns_pure.mp last
    cases same
    exact .right _ (X.pending_output _ ‹_›)
  · obtain ⟨_, _, _, _, second, -⟩ := returns_bind.mp second
    obtain ⟨⟨result, buf⟩, _, _, _, last, -⟩ := returns_bind.mp second
    obtain ⟨same, -⟩ := returns_pure.mp last
    cases same
    exact .right _ (X.pending_getSrcBlk _ ‹_› _)
  -- The notifications; an error has ended the run before.
  all_goals
    rename_i status
    obtain ⟨same, -⟩ := returns_pure.mp second
    cases same
  · exact .right _ (X.pending_notice _ (by rw [status]; decide))
  · exact .right _ (X.pending_notice _ (by rw [status]; decide))
  · exact .right _ (X.pending_notice _ (by rw [status]; decide))
  · rw [if_pos status] at fine
    cases fine

variable (fsource fdelta)

theorem decode_live : Live SystemCall.readFails (decode P X fsource fdelta) := by
  refine .bind (must_live _) fun _ => .bind (must_live _) fun _ => .bind (must_live _) fun _ =>
    .bind (must_live _) fun _ => .bind (feed_live fdelta _) fun st => ?_
  exact live_loop (later_wf fdelta) (fun _ => True) (fun st _ => processTurn_live fsource fdelta st)
    (fun _ _ _ _ _ returns clean => ⟨trivial, processTurn_later returns clean⟩) trivial

theorem dedelta_live : Live SystemCall.readFails (dedelta P X fsource fdelta) := by
  refine .bind (.attempt _) fun _ => .bind (.attempt _) fun _ => .bind (.attempt _) fun _ =>
    .bind (.attempt _) fun _ => ?_
  split
  · exact decode_live fsource fdelta
  · exact .bind (.attempt _) fun _ => .giveUp

theorem processTurn_defined (st : DecodeState X) : Defined (processTurn P X fsource fdelta st) := by
  have written : ∀ availOut, Defined (writeOut P availOut) := by
    intro availOut
    unfold writeOut
    split
    · exact .attempt _
    · exact .pure _
  refine .bind (.attempt _) fun _ => ?_
  dsimp only
  split
  · split
    · exact .pure _
    · exact .bind (.bind (.attempt _) fun _ => .pure _) fun _ => .pure _
  · exact .bind (written _) fun _ => .pure _
  · exact .bind (.attempt _) fun _ => .bind (.attempt _) fun _ => .pure _
  all_goals exact .pure _

theorem dedelta_defined : Defined (dedelta P X fsource fdelta) := by
  refine .bind (.attempt _) fun _ => .bind (.attempt _) fun _ => .bind (.attempt _) fun _ =>
    .bind (.attempt _) fun _ => ?_
  split
  · exact .bind (.attempt _) fun _ => .bind (.attempt _) fun _ => .bind (.attempt _) fun _ => .bind (.attempt _)
      fun _ => .bind (.bind (.attempt _) fun _ => .pure _) fun st => .loop (processTurn_defined fsource fdelta) st
  · exact .bind (.attempt _) fun _ => .giveUp

end Ending

/-! ## The calls of the decoding -/

section Making

variable {P : Platform} {X : Xdelta} {p : SystemCall → Prop}
  (reads : ∀ reader fd pos n, p (P.readAnswer reader fd pos Zip.chunk n).2)
  (others : ∀ c, (∀ reader asked result, c ≠ .read reader asked result) → (∀ file opened, c ≠ .opens file opened) →
    c ≠ .unlink → p c)

include reads in
theorem feed_makes (fdelta : Bytes) (st : DecodeState X) : Makes p (feed P X fdelta st) :=
  .bind (.attempt fun _ => reads ..) fun _ => .pure _

include others in
theorem writeOut_makes (availOut : Nat) : Makes p (writeOut P availOut) := by
  unfold writeOut
  split
  · exact .attempt fun _ => others _ nofun nofun nofun
  · exact .pure _

include reads others

theorem processTurn_makes (fsource fdelta : Bytes) (st : DecodeState X) :
    Makes p (processTurn P X fsource fdelta st) := by
  refine .bind (.attempt fun _ => others _ nofun nofun nofun) fun _ => ?_
  dsimp only
  split
  · split
    · exact .pure _
    · exact .bind (feed_makes reads fdelta _) fun _ => .pure _
  · exact .bind (writeOut_makes others _) fun _ => .pure _
  · exact .bind (.attempt fun _ => others _ nofun nofun nofun) fun _ => .bind (.attempt fun _ => reads ..)
      fun _ => .pure _
  all_goals exact .pure _

/-- The decoding reads whole chunks, and neither opens nor unlinks a file. -/
theorem decode_makes (fsource fdelta : Bytes) : Makes p (decode P X fsource fdelta) := by
  have setUp : ∀ record, (∀ worked, p (record worked)) → Makes p (must P record) :=
    fun _ made => .attempt fun _ => made _
  exact .bind (setUp _ fun _ => others _ nofun nofun nofun) fun _ =>
    .bind (setUp _ fun _ => others _ nofun nofun nofun) fun _ =>
    .bind (setUp _ fun _ => others _ nofun nofun nofun) fun _ =>
    .bind (setUp _ fun _ => others _ nofun nofun nofun) fun _ =>
    .bind (feed_makes reads fdelta _) fun st => .loop (processTurn_makes reads others fsource fdelta) st

end Making

/-! ## The output after a failure -/

section Output

variable {P : Platform} {X : Xdelta} {fsource fdelta : Bytes}

theorem outPresent_append (calls : List SystemCall) {new : List SystemCall}
    (other : ∀ c ∈ new, (∀ file opened, c ≠ .opens file opened) ∧ c ≠ .unlink) :
    outPresent (calls ++ new) = outPresent calls := by
  rw [outPresent, List.foldl_append, ← outPresent]
  generalize outPresent calls = present
  induction new with
  | nil => rfl
  | cons c new ih =>
    rw [List.forall_mem_cons] at other
    have kept : presentAfter present c = present := by
      cases c with
      | opens file opened => exact absurd rfl (other.1.1 file opened)
      | unlink => exact absurd rfl other.1.2
      | _ => rfl
    rw [List.foldl_cons, kept]
    exact ih other.2

variable (P X fsource fdelta) in
/-- When `dedelta` returns 0, no output file is left. -/
def LeavesNoOutput : Prop :=
  ∀ fuel, ((dedelta P X fsource fdelta).run fuel 0).1 = .error .failed →
    outPresent ((dedelta P X fsource fdelta).run fuel 0).2 = false

/-- With the files open, the output file is there at the end of every run. -/
theorem outPresent_of_opens (opens : P.Opens 0) (fuel : Nat) :
    outPresent ((dedelta P X fsource fdelta).run fuel 0).2 = true := by
  rw [dedelta_run_opens opens, outPresent_append]
  · obtain ⟨-, -, out⟩ := opens
    rw [outPresent, opening, out]
    rfl
  · exact decode_makes (fun _ _ _ _ => ⟨nofun, nofun⟩) (fun _ _ opened unlinked => ⟨opened, unlinked⟩)
      fsource fdelta fuel _

variable (P X fsource fdelta) in
/-- **No output is left exactly if some file cannot be opened, or no call of the
run fails.** -/
theorem leavesNoOutput_iff : LeavesNoOutput P X fsource fdelta ↔
    ¬P.Opens 0 ∨ ∀ fuel, ∀ c ∈ ((dedelta P X fsource fdelta).run fuel 0).2, ¬c.aborts P := by
  constructor
  · intro cleans
    refine or_iff_not_imp_left.mpr fun opens fuel c member abort => ?_
    have failed := (dedelta_failsBy P X fsource fdelta fuel 0).mpr ⟨c, member, abort⟩
    have left := cleans fuel failed
    rw [outPresent_of_opens (Decidable.not_not.mp opens)] at left
    cases left
  · rintro (closed | works) fuel failed
    · rw [dedelta_run_closed closed, outPresent, List.foldl_append]
      rfl
    · obtain ⟨c, member, abort⟩ := (dedelta_failsBy P X fsource fdelta fuel 0).mp failed
      exact absurd abort (works fuel c member)

end Output

/-! ## The end of the input -/

/-- The decoder as a reader of deltas. `given` is what it has been given of the
delta, all of which it has consumed when it asks for more; `between` holds of
the beginnings of a delta that end in front of the header or between windows,
and the stream can be closed there only. -/
structure Xdelta.Reader (X : Xdelta) (between : Bytes → Prop) where
  given : X.Stream → Bytes
  start : given X.start = []
  setFlush : ∀ s, given (X.setFlush s) = given s
  availInput : ∀ s bytes, given (X.availInput s bytes) = given s ++ bytes
  decodeInput : ∀ s, given (X.decodeInput s).2 = given s
  consumeOutput : ∀ s, given (X.consumeOutput s) = given s
  setBlock : ∀ s block, given (X.setBlock s block) = given s
  closeStream : ∀ s, (X.decodeInput s).1 = .input → (X.closeStream (X.decodeInput s).2 = 0 ↔ between (given s))

/-- A platform on which files can be read: a `read` delivers something before
the end of the file. -/
structure Readable extends Platform where
  reads : ∀ n, ∃ count, toPlatform.read n = some (count + 1)

section Complete

variable {P : Readable} {X : Xdelta} {between : Bytes → Prop} {fsource fdelta : Bytes}

/-- Chunks are delivered until the file ends. -/
theorem Readable.delivered (P : Readable) (fd : Bytes) (pos n : Nat) :
    ∃ data, P.delivered fd pos Zip.chunk n = some data ∧ data = (fd.drop pos).take data.length ∧
      (data.length = 0 → fd.length ≤ pos) := by
  obtain ⟨count, answer⟩ := P.reads n
  have few : ¬P.sizeMax ≤ Zip.chunk := by
    have large := P.sizeMax_large
    rw [Zip.chunk]
    omega
  refine ⟨ByteFile.slice fd pos (min (count + 1) Zip.chunk), ?_, ?_, ?_⟩
  · rw [Platform.delivered, Platform.granted, if_neg few, answer]
    rfl
  · rw [ByteFile.slice_length, ByteFile.slice, List.take_eq_take_min, List.length_drop]
  · rw [ByteFile.slice_length, Zip.chunk]
    omega

/-- What has been given to the decoder is what has been read of the delta. -/
structure Fed (R : X.Reader between) (fdelta : Bytes) (st : DecodeState X) : Prop where
  given : R.given st.stream = fdelta.take st.position
  inside : st.position ≤ fdelta.length
  eof : st.eof = true → st.position = fdelta.length

variable (R : X.Reader between)

theorem feed_fed {st st' : DecodeState X} {n : Nat} {calls : List SystemCall} (fed : Fed R fdelta st)
    (returns : Computation.Returns (feed P.toPlatform X fdelta st) n st' calls) : Fed R fdelta st' := by
  obtain ⟨⟨result, buf⟩, _, _, first, last, -⟩ := returns_bind.mp returns
  obtain ⟨answered, -⟩ := returns_attempt.mp first
  obtain ⟨data, read, taken, atEnd⟩ := P.delivered fdelta st.position n
  simp only [Platform.readAnswer, read, Option.map_some, Option.getD_some, Option.some.injEq, Prod.mk.injEq] at answered
  obtain ⟨rfl, rfl⟩ := answered
  obtain ⟨rfl, -⟩ := returns_pure.mp last
  have size := congrArg List.length taken
  rw [List.length_take, List.length_drop] at size
  have inside := fed.inside
  refine ⟨?_, ?_, ?_⟩
  · show R.given (X.availInput _ _) = fdelta.take (st.position + data.length)
    have same : R.given (if some data.length = some 0 then X.setFlush st.stream else st.stream) = R.given st.stream := by
      split
      · exact R.setFlush _
      · rfl
    rw [R.availInput, same, fed.given, List.take_add, ← taken]
    rfl
  · show st.position + data.length ≤ _
    omega
  · intro eof
    show st.position + data.length = _
    rcases Bool.or_eq_true _ _ |>.mp eof with before | now
    · have position := fed.eof before
      omega
    · have none : data.length = 0 := Option.some.inj (of_decide_eq_true now)
      have reached := atEnd none
      omega

/-- A state whose stream is closed: the whole delta was consumed, and the
decoder asked for more. -/
structure Closing (R : X.Reader between) (fdelta : Bytes) (st : DecodeState X) : Prop where
  position : st.position = fdelta.length
  close : X.closeStream st.stream = 0 ↔ between fdelta

theorem processTurn_fed {st : DecodeState X} {turn : Turn (DecodeState X) (DecodeState X)} {n : Nat}
    {calls : List SystemCall} (fed : Fed R fdelta st)
    (returns : Computation.Returns (processTurn P.toPlatform X fsource fdelta st) n turn calls) :
    turn.Holds (Fed R fdelta) (Closing R fdelta) := by
  obtain ⟨_, _, _, _, second, -⟩ := returns_bind.mp returns
  have decoded : Fed R fdelta { st with stream := (X.decodeInput st.stream).2 } :=
    ⟨(R.decodeInput _).trans fed.given, fed.inside, fed.eof⟩
  dsimp only at second
  split at second
  · rename_i input
    split at second
    · rename_i eof
      obtain ⟨rfl, -⟩ := returns_pure.mp second
      have position := fed.eof eof
      refine ⟨position, (R.closeStream _ input).trans ?_⟩
      rw [fed.given, position, List.take_length]
    · obtain ⟨fed', _, _, fedBy, last, -⟩ := returns_bind.mp second
      obtain ⟨rfl, -⟩ := returns_pure.mp last
      exact feed_fed R decoded fedBy
  · obtain ⟨_, _, _, _, last, -⟩ := returns_bind.mp second
    obtain ⟨rfl, -⟩ := returns_pure.mp last
    exact ⟨(R.consumeOutput _).trans decoded.given, fed.inside, fed.eof⟩
  · obtain ⟨_, _, _, _, second, -⟩ := returns_bind.mp second
    obtain ⟨_, _, _, _, last, -⟩ := returns_bind.mp second
    obtain ⟨rfl, -⟩ := returns_pure.mp last
    exact ⟨(R.setBlock _ _).trans decoded.given, fed.inside, fed.eof⟩
  all_goals
    obtain ⟨rfl, -⟩ := returns_pure.mp second
    exact decoded

theorem decode_closing {st : DecodeState X} {n : Nat} {calls : List SystemCall}
    (returns : Computation.Returns (decode P.toPlatform X fsource fdelta) n st calls) : Closing R fdelta st := by
  obtain ⟨_, _, _, _, second, -⟩ := returns_bind.mp returns
  obtain ⟨_, _, _, _, third, -⟩ := returns_bind.mp second
  obtain ⟨_, _, _, _, fourth, -⟩ := returns_bind.mp third
  obtain ⟨_, _, _, _, fifth, -⟩ := returns_bind.mp fourth
  obtain ⟨first, _, _, fedBy, turns, -⟩ := returns_bind.mp fifth
  refine turns.loop_induct (fun st n turn calls fed returns => processTurn_fed R fed returns) ?_
  exact feed_fed R ⟨by rw [R.start, List.take_zero], Nat.zero_le _, fun eof => absurd eof Bool.false_ne_true⟩ fedBy

/-- What `dedelta` returns 1 with is the end of a decoding. -/
theorem dedelta_closing {st : DecodeState X} {calls : List SystemCall}
    (returns : Computation.Returns (dedelta P.toPlatform X fsource fdelta) 0 st calls) : Closing R fdelta st := by
  obtain ⟨fuel, run⟩ := returns
  by_cases opens : P.Opens 0
  · rw [dedelta_run_opens opens] at run
    exact decode_closing R ⟨fuel, Prod.ext (Prod.mk.inj run).1 rfl⟩
  · rw [dedelta_run_closed opens] at run
    cases run

theorem dedelta_quiet : Quiet SystemCall.readFails (dedelta P.toPlatform X fsource fdelta) 0 := by
  intro fuel
  by_cases opens : P.Opens 0
  · rw [dedelta_run_opens opens]
    intro c member
    rcases List.mem_append.mp member with before | after
    · simp only [opening, List.mem_cons, List.not_mem_nil, or_false] at before
      rcases before with rfl | rfl | rfl | rfl <;> exact id
    · refine decode_makes (p := fun c => ¬c.readFails) (fun reader fd pos n => ?_) (fun c notRead _ _ => ?_)
        fsource fdelta fuel _ c after
      · obtain ⟨data, read, -⟩ := P.delivered fd pos n
        rw [Platform.readAnswer, read]
        exact id
      · cases c with
        | read reader asked result => exact absurd rfl (notRead _ _ _)
        | _ => exact id
  · rw [dedelta_run_closed opens]
    intro c member
    simp only [opening, List.cons_append, List.nil_append, List.mem_cons, List.not_mem_nil, or_false] at member
    rcases member with rfl | rfl | rfl | rfl | rfl <;> exact id

variable (P X fsource fdelta) in
/-- When `dedelta` returns 1, the whole delta was consumed, and the stream could
be closed. -/
def ReportsComplete : Prop :=
  ∀ st calls, Computation.Returns (dedelta P.toPlatform X fsource fdelta) 0 st calls →
    st.position = fdelta.length ∧ X.closeStream st.stream = 0

variable (P fsource fdelta) in
/-- **A return of 1 means a complete delta exactly if the delta ends between
windows, or some call of the run fails.** -/
theorem reportsComplete_iff (R : X.Reader between) : ReportsComplete P X fsource fdelta ↔
    between fdelta ∨ ∃ fuel, ∃ c ∈ ((dedelta P.toPlatform X fsource fdelta).run fuel 0).2, c.aborts P.toPlatform := by
  constructor
  · intro complete
    refine or_iff_not_imp_right.mpr fun works => ?_
    obtain ⟨fuel, ended⟩ := dedelta_live fsource fdelta 0 (dedelta_quiet (P := P) (X := X))
    cases ran : (dedelta P.toPlatform X fsource fdelta).run fuel 0 with
    | mk result calls =>
      cases result with
      | ok st =>
        have returns : Computation.Returns (dedelta P.toPlatform X fsource fdelta) 0 st calls := ⟨fuel, ran⟩
        exact (dedelta_closing R returns).close.mp (complete st calls returns).2
      | error stop =>
        cases stop with
        | failed =>
          refine absurd ⟨fuel, (dedelta_failsBy P.toPlatform X fsource fdelta fuel 0).mp ?_⟩ works
          rw [ran]
        | undefined => exact absurd (by rw [ran]) (dedelta_defined (P := P.toPlatform) (X := X) fsource fdelta fuel 0)
        | unfinished => exact absurd (by rw [ran]) ended
  · rintro (boundary | ⟨fuel, abort⟩) st calls returns
    · have closing := dedelta_closing R returns
      exact ⟨closing.position, closing.close.mpr boundary⟩
    · have failed := (dedelta_failsBy P.toPlatform X fsource fdelta fuel 0).mpr abort
      obtain ⟨fuel', run⟩ := returns
      have ended : ((dedelta P.toPlatform X fsource fdelta).run fuel 0).1 ≠ .error .unfinished := by
        rw [failed]
        nofun
      rw [← Finishes.mono ended (Nat.le_max_left fuel fuel'), Computation.Returns.mono run (Nat.le_max_right ..)] at failed
      cases failed

end Complete

/-! ### Short deltas -/

/-- What xdelta3 does with a delta of at most six bytes whose header has no
options: it waits for the four bytes of the magic, and takes in the header and the
first byte of a window. -/
def shortDelta : Xdelta where
  Stream := Bytes
  start := []
  setFlush s := s
  availInput s bytes := s ++ bytes
  decodeInput s := (if s.length < 4 ∨ s.take 4 = [0xd6, 0xc3, 0xc4, 0x00] then .input else .error, s)
  nextOut _ := []
  consumeOutput s := s
  getblkno _ := 0
  setBlock s _ := s
  closeStream s := if s.length < 4 ∨ s.length = 5 then 0 else -17710
  pending _ := 0
  pending_output s output := by
    split at output
    · cases output
    · cases output
  pending_getSrcBlk s asked := by
    split at asked
    · cases asked
    · cases asked
  pending_notice s noticed := by
    split at noticed
    · exact absurd (show Status.input ∈ _ from noticed) (by decide)
    · exact absurd (show Status.error ∈ _ from noticed) (by decide)

def shortDelta_reader : shortDelta.Reader fun delta => delta.length < 4 ∨ delta.length = 5 where
  given s := s
  start := rfl
  setFlush _ := rfl
  availInput _ _ := rfl
  decodeInput _ := rfl
  consumeOutput _ := rfl
  setBlock _ _ := rfl
  closeStream s _ := by
    show (if s.length < 4 ∨ s.length = 5 then (0 : Int) else -17710) = 0 ↔ _
    split
    · exact ⟨fun _ => ‹_›, fun _ => rfl⟩
    · exact ⟨fun zero => absurd zero (by decide), fun between => absurd between ‹_›⟩

/-- A platform on which every call works. -/
def working : Readable where
  sizeMax := 2 ^ 32 - 1
  read _ := some (2 ^ 20)
  write _ := some (2 ^ 20)
  works _ := true
  memory _ := []
  sizeMax_large := Nat.le_refl _
  reads _ := ⟨2 ^ 20 - 1, rfl⟩

/-- A delta that breaks off behind the first byte of its first window. -/
def truncatedDelta : Bytes := [0xd6, 0xc3, 0xc4, 0x00, 0x00, 0x01]

theorem truncatedDelta_accepted :
    Nonempty (shortDelta.Reader fun delta => delta.length < 4 ∨ delta.length = 5) ∧
      ¬ReportsComplete working shortDelta [] truncatedDelta := by
  refine ⟨⟨shortDelta_reader⟩, fun complete => ?_⟩
  have run : (dedelta working.toPlatform shortDelta [] truncatedDelta).run 3 0 =
      (.ok { stream := truncatedDelta, position := 6, eof := true },
        ((dedelta working.toPlatform shortDelta [] truncatedDelta).run 3 0).2) := by
    rfl
  have closed := (complete _ _ ⟨3, run⟩).2
  exact absurd closed (by decide)

/-- A file that is no delta: the header of a ZIP. -/
theorem foreignDelta_leaves : ¬LeavesNoOutput working.toPlatform shortDelta [] [0x50, 0x4b, 0x03, 0x04] := by
  intro cleans
  have left := cleans 2 rfl
  revert left
  decide

end OpenDelta.Native
