import OpenDelta.Vcdiff.Chunks

/-!
# A caller of the decoder

What `dedelta` does with the returns of the decoder: it gives it the next part of the
delta, keeps the output, reads the block of the source that is asked for, and goes on
behind a notice. However the delta is cut into parts, the caller ends in the same way
(`serve_chunks`).
-/

namespace OpenDelta.Vcdiff
open ByteFile

/-- The caller between two calls: the parts of the delta that are still to come, and
what has been written. -/
structure Caller where
  stream : Stream
  chunks : List Bytes
  out : Bytes

/-- What the caller ends with: the last return, the state that the decoder is left in,
and what has been written. -/
structure Ending where
  answer : Answer
  decState : DecState
  out : Bytes
  deriving DecidableEq

/-- The block that has been asked for; the last one may be short. -/
def sourceBlock (source : Bytes) (src : Source) : Bytes := slice source (src.blksize * src.getblkno) src.blksize

/-- What is done behind a return before the decoder is called again. -/
def served (source : Bytes) (answer : Answer) (s : Stream) (out : Bytes) : Stream × Bytes :=
  match answer with
  | .output => (consumeOutput s, out ++ s.body.out)
  | .getSrcBlk => (setBlock s (sourceBlock source s.body.src), out)
  | _ => (s, out)

/-- One call of the decoder. -/
def serveTurn (applyTableEncoding : Nat → Nat → Bytes → Except Failure (List Dinst)) (source : Bytes) (c : Caller) :
    Turn Caller Ending :=
  let returned := decodeInput applyTableEncoding c.stream
  match returned.1, c.chunks with
  | .input, chunk :: chunks => .again { stream := availInput returned.2 chunk, chunks, out := c.out }
  | .input, [] | .fails _, _ | .undefined, _ =>
    .done { answer := returned.1, decState := returned.2.decState, out := c.out }
  | answer, chunks =>
    let next := served source answer returned.2 c.out
    .again { stream := next.1, chunks, out := next.2 }

section Serving

variable {applyTableEncoding : Nat → Nat → Bytes → Except Failure (List Dinst)} {source : Bytes} {s t : Stream}
  {answer : Answer} {chunks : List Bytes} {out : Bytes}

theorem serveTurn_next {chunk : Bytes} (waited : decodeInput applyTableEncoding s = (.input, t)) :
    serveTurn applyTableEncoding source ⟨s, chunk :: chunks, out⟩ = .again ⟨availInput t chunk, chunks, out⟩ := by
  rw [serveTurn]
  simp only [waited]

theorem serveTurn_end (waited : decodeInput applyTableEncoding s = (.input, t)) :
    serveTurn applyTableEncoding source ⟨s, [], out⟩ = .done ⟨.input, t.decState, out⟩ := by
  rw [serveTurn]
  simp only [waited]

theorem serveTurn_stops (returned : decodeInput applyTableEncoding s = (answer, t)) (stops : ¬answer.Goes) :
    serveTurn applyTableEncoding source ⟨s, chunks, out⟩ = .done ⟨answer, t.decState, out⟩ := by
  rw [serveTurn]
  simp only [returned]
  cases answer with
  | fails failure => rfl
  | undefined => rfl
  | input => exact absurd trivial stops
  | output => exact absurd trivial stops
  | getSrcBlk => exact absurd trivial stops
  | gotHeader => exact absurd trivial stops
  | winStart => exact absurd trivial stops
  | winFinish => exact absurd trivial stops

theorem serveTurn_goes (returned : decodeInput applyTableEncoding s = (answer, t)) (goes : answer.Goes)
    (other : answer ≠ .input) :
    serveTurn applyTableEncoding source ⟨s, chunks, out⟩ =
      .again ⟨(served source answer t out).1, chunks, (served source answer t out).2⟩ := by
  rw [serveTurn]
  simp only [returned]
  cases answer with
  | fails failure => exact goes.elim
  | undefined => exact goes.elim
  | input => exact absurd rfl other
  | output => rfl
  | getSrcBlk => rfl
  | gotHeader => rfl
  | winStart => rfl
  | winFinish => rfl

/-- Serving a return does not touch the input. -/
theorem served_more (more : Bytes) :
    served source answer (t.more more) out = ((served source answer t out).1.more more, (served source answer t out).2) := by
  cases answer <;> rfl

theorem Stream.Good.same (good : s.Good) (decState : t.decState = s.decState) (winbytes : t.winbytes = s.winbytes)
    (sect : t.sect = s.sect) : t.Good where
  clean outside notEmit := by
    rw [winbytes, sect]
    exact good.clean (decState ▸ outside) (decState ▸ notEmit)
  tallied within := by
    obtain ⟨small, sum⟩ := good.tallied (decState ▸ within)
    refine ⟨winbytes ▸ small, ?_⟩
    rw [Stream.left, Stream.total, decState, winbytes, sect]
    exact sum

theorem served_good (good : t.Good) : (served source answer t out).1.Good := by
  cases answer <;> exact good.same rfl rfl rfl

end Serving

/-! ## The delta in parts -/

section Parts

variable {applyTableEncoding : Nat → Nat → Bytes → Except Failure (List Dinst)} {source : Bytes}

/-- In every window the lengths of the sections, with a block of the allocation, add up to
no more than `2 ^ 32`. -/
def Caller.Fitting (applyTableEncoding : Nat → Nat → Bytes → Except Failure (List Dinst)) (source : Bytes) (c : Caller) :
    Prop :=
  ∀ c', Reaches (serveTurn applyTableEncoding source) c c' → c'.stream.decState ∈ DecState.sections →
    c'.stream.Short

theorem Caller.Fitting.next {c c' : Caller} (fitting : c.Fitting applyTableEncoding source)
    (turned : serveTurn applyTableEncoding source c = .again c') : c'.Fitting applyTableEncoding source :=
  fun c'' reaches => fitting c'' (.step turned reaches)

theorem Stream.Good.fits {s : Stream} (good : s.Good) (small : s.decState ∈ DecState.sections → s.Short) :
    s.Fits := fun within => ⟨good.tallied within, small within⟩

/-- The parts that the decoder takes before its next return for something else. -/
theorem catch_up (chunks : List Bytes) (s : Stream) (out : Bytes) (good : s.Good)
    (small : s.decState ∈ DecState.sections → s.Short) :
    ∃ s' chunks', Reaches (serveTurn applyTableEncoding source) ⟨s, chunks, out⟩ ⟨s', chunks', out⟩ ∧
      decodeInput applyTableEncoding (s.more chunks.flatten) =
        decodeInput applyTableEncoding (s'.more chunks'.flatten) ∧
      s'.Good ∧ (s'.decState ∈ DecState.sections → s'.Short) ∧
      ((decodeInput applyTableEncoding s').1 = .input → chunks' = []) := by
  induction chunks generalizing s with
  | nil => exact ⟨s, [], .refl _, rfl, good, small, fun _ => rfl⟩
  | cons chunk chunks ih =>
    cases returned : decodeInput applyTableEncoding s with
    | mk answer t =>
      by_cases waited : answer = .input
      · subst waited
        have keeps := decodeInput_keeps returned
        have good' : (availInput t chunk).Good := (decodeInput_good good returned trivial).same rfl rfl rfl
        have small' : (availInput t chunk).decState ∈ DecState.sections → (availInput t chunk).Short := by
          intro within
          obtain ⟨before, total⟩ := keeps.within within
          show t.total + allocsize ≤ 2 ^ 32
          rw [total]
          exact small before
        obtain ⟨s', chunks', reaches, same, later⟩ := ih (availInput t chunk) good' small'
        refine ⟨s', chunks', .step (serveTurn_next returned) reaches, ?_, later⟩
        rw [← same, decodeInput_waits returned (good.fits small)]
        rfl
      · refine ⟨s, chunk :: chunks, .refl _, rfl, good, small, fun input => ?_⟩
        rw [returned] at input
        exact absurd input waited

/-- What a turn on the whole delta means for the parts. -/
inductive Matched (applyTableEncoding : Nat → Nat → Bytes → Except Failure (List Dinst)) (source : Bytes)
    (parts : Caller) : Turn Caller Ending → Prop where
  | done {ending : Ending} : Comes (serveTurn applyTableEncoding source) parts ending →
      Matched applyTableEncoding source parts (.done ending)
  | again {s : Stream} {chunks : List Bytes} {out : Bytes} : s.Good →
      Reaches (serveTurn applyTableEncoding source) parts ⟨s, chunks, out⟩ →
      Matched applyTableEncoding source parts (.again ⟨s.more chunks.flatten, [], out⟩)

theorem matched (chunks : List Bytes) (s : Stream) (out : Bytes) (good : s.Good)
    (small : s.decState ∈ DecState.sections → s.Short) :
    Matched applyTableEncoding source ⟨s, chunks, out⟩
      (serveTurn applyTableEncoding source ⟨s.more chunks.flatten, [], out⟩) := by
  obtain ⟨s', chunks', reaches, same, good', small', later⟩ :=
    @catch_up applyTableEncoding source chunks s out good small
  cases returned : decodeInput applyTableEncoding s' with
  | mk answer t =>
    by_cases waited : answer = .input
    · subst waited
      have none : chunks' = [] := later (by rw [returned])
      subst none
      have whole : decodeInput applyTableEncoding (s.more chunks.flatten) = (.input, t) := by
        rw [same, ← returned, Stream.more_eq, List.flatten_nil, List.append_nil]
        rfl
      rw [serveTurn_end whole]
      exact .done (.of_reaches reaches (.done (serveTurn_end returned)))
    · have whole : decodeInput applyTableEncoding (s.more chunks.flatten) = (answer, t.more chunks'.flatten) := by
        rw [same]
        exact decodeInput_stops returned ⟨waited, good'.fits small'⟩ _
      by_cases goes : answer.Goes
      · rw [serveTurn_goes whole goes waited, served_more]
        have good'' := decodeInput_good good' returned goes
        exact .again (served_good good'') (reaches.trans (.step (serveTurn_goes returned goes waited) (.refl _)))
      · rw [serveTurn_stops whole goes]
        exact .done (.of_reaches reaches (.done (by rw [serveTurn_stops returned goes]; rfl)))

/-- The caller ends with the delta in parts as it does with the delta as a whole. -/
theorem serve_parts {whole : Caller} {ending : Ending} (comes : Comes (serveTurn applyTableEncoding source) whole ending)
    (fitting : whole.Fitting applyTableEncoding source) {s : Stream} {chunks : List Bytes} {out : Bytes} (good : s.Good)
    (is_whole : whole = ⟨s.more chunks.flatten, [], out⟩) :
    Comes (serveTurn applyTableEncoding source) ⟨s, chunks, out⟩ ending := by
  induction comes generalizing s chunks out with
  | @done whole ending turned =>
    have small := fitting whole (.refl _)
    rw [is_whole] at turned small
    have turns := @matched applyTableEncoding source chunks s out good small
    rw [turned] at turns
    cases turns with
    | done comes => exact comes
  | @again whole next ending turned comes ih =>
    have small := fitting whole (.refl _)
    have fitting' := fitting.next turned
    rw [is_whole] at turned small
    have turns := @matched applyTableEncoding source chunks s out good small
    rw [turned] at turns
    cases turns with
    | again good' reaches => exact .of_reaches reaches (ih fitting' good' rfl)

theorem startStream_good (shiftby : Nat) : (startStream shiftby).Good :=
  ⟨fun _ _ => ⟨rfl, fun _ => rfl⟩, fun within => absurd within (show DecState.vcHead ∉ DecState.sections by decide)⟩

/-- A delta with one window, which adds three bytes. -/
def addingDelta : Bytes := [0xd6, 0xc3, 0xc4, 0, 0, 0, 9, 3, 0, 3, 1, 0, 1, 2, 3, 4]

/-- A delta with a table of its own is refused. -/
def noTable : Nat → Nat → Bytes → Except Failure (List Dinst) := fun _ _ _ => .error ⟨.unimplemented, ""⟩

def addingStart : Stream := availInput (startStream 14) addingDelta

/-- The stream behind the header of the window. -/
def addingOpened : Stream := (decodeInput noTable addingStart).2

/-- The stream when all sections are there. -/
def addingTaken : Stream :=
  match takeSections addingOpened with
  | .ok s => s
  | .error returned => returned.2

theorem addingOpened_header : decodeInput noTable addingStart = (.gotHeader, addingOpened) := Prod.ext (by rfl) rfl

theorem addingTaken_sections : takeSections addingOpened = .ok addingTaken := by rfl

/-- The window is put out. -/
def addingAdded : Body :=
  { addingTaken.body with inst := [], data := [], position := 3, out := [1, 2, 3], current1 := { type := .noop, size := 3 } }

def addingPut : Stream := finishWindow { addingTaken with body := addingAdded }

theorem addingPut_output : decodeInput noTable addingOpened = (.output, addingPut) := by
  let decoded : Body :=
    { addingTaken.body with inst := [], position := 3, current1 := { type := .add, size := 3 } }
  have decodes : emitTurn addingTaken.body = .again decoded := by rfl
  have adds : emitTurn decoded = .again addingAdded := by rfl
  have finishes : emitTurn addingAdded = .done (.output, addingAdded) := by rfl
  have returns : decodeEmit addingTaken.body = (.output, addingAdded) :=
    comes_iff.mp (.again decodes (.again adds (.done finishes)))
  have placed : addingTaken.placed = addingTaken := by rfl
  have emits : emitCase addingTaken = .error (.output, addingPut) := by
    unfold emitCase
    dsimp only
    rw [placed, returns]
    rfl
  have sections : sectionsCase addingOpened = .ok addingTaken := by
    rw [sectionsCase_within (by decide), addingTaken_sections]
  have here : casesFrom noTable addingOpened.decState = casesFrom noTable .data := by rfl
  have run : runCases (casesFrom noTable addingOpened.decState) addingOpened = .error (.output, addingPut) := by
    rw [here]
    show (sectionsCase addingOpened >>= runCases (casesFrom noTable .emit)) = _
    rw [sections]
    show (emitCase addingTaken >>= runCases (casesFrom noTable .finish)) = _
    rw [emits]
    rfl
  unfold decodeInput
  rw [run]

/-- The stream behind the window. -/
def addingClosed : Stream := (decodeInput noTable (consumeOutput addingPut)).2

theorem addingStart_turns :
    serveTurn noTable [] ⟨addingStart, [], []⟩ = .again ⟨addingOpened, [], []⟩ ∧
    serveTurn noTable [] ⟨addingOpened, [], []⟩ = .again ⟨consumeOutput addingPut, [], [1, 2, 3]⟩ ∧
    serveTurn noTable [] ⟨consumeOutput addingPut, [], [1, 2, 3]⟩ = .again ⟨addingClosed, [], [1, 2, 3]⟩ ∧
    serveTurn noTable [] ⟨addingClosed, [], [1, 2, 3]⟩ = .done ⟨.input, .winInd, [1, 2, 3]⟩ :=
  ⟨serveTurn_goes addingOpened_header trivial nofun, serveTurn_goes addingPut_output trivial nofun, by rfl, by rfl⟩

theorem addingStart_comes : Comes (serveTurn noTable []) ⟨addingStart, [], []⟩ ⟨.input, .winInd, [1, 2, 3]⟩ := by
  obtain ⟨opens, puts, closes, ends⟩ := addingStart_turns
  exact .again opens (.again puts (.again closes (.done ends)))

/-- The decoder is called four times. -/
theorem addingStart_reaches {c' : Caller} (reaches : Reaches (serveTurn noTable []) ⟨addingStart, [], []⟩ c') :
    c'.stream = addingStart ∨ c'.stream = addingOpened ∨ c'.stream = consumeOutput addingPut ∨
      c'.stream = addingClosed := by
  obtain ⟨opens, puts, closes, ends⟩ := addingStart_turns
  cases reaches with
  | refl => exact .inl rfl
  | step turned reaches =>
  cases opens.symm.trans turned
  cases reaches with
  | refl => exact .inr (.inl rfl)
  | step turned reaches =>
  cases puts.symm.trans turned
  cases reaches with
  | refl => exact .inr (.inr (.inl rfl))
  | step turned reaches =>
  cases closes.symm.trans turned
  cases reaches with
  | refl => exact .inr (.inr (.inr rfl))
  | step turned _ => cases ends.symm.trans turned

/-- Only one of the calls begins within the sections. -/
theorem addingStart_within {c' : Caller} (reaches : Reaches (serveTurn noTable []) ⟨addingStart, [], []⟩ c')
    (within : c'.stream.decState ∈ DecState.sections) : c'.stream = addingOpened := by
  rcases addingStart_reaches reaches with start | opened | put | closed
  · rw [start] at within
    exact absurd within (by decide)
  · exact opened
  · rw [put] at within
    exact absurd within (show DecState.finish ∉ DecState.sections by decide)
  · rw [closed] at within
    exact absurd within (show DecState.winInd ∉ DecState.sections by decide)

end Parts

end OpenDelta.Vcdiff
