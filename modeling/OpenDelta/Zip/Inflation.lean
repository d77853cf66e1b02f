import OpenDelta.Zip.EntryData

/-!
# Inflating against the standard

`Inflation` is a reading of raw deflate streams: what the stream at the head of
some bytes expands to and how many bytes it occupies. `Zlib.Inflates` is zlib's
contract against it, call by call; under the contract `xdecompress` writes the
expansion of the stream at its input position and fails when there is none
(`xdecompress_eq`).

`Inflation.zlib` is a zlib that collects its input until the stream is
complete, `storedBlock` the reading of streams that are one final stored block.
-/

namespace OpenDelta.Zip
open ByteFile LittleEndian

/-- A reading of raw deflate streams. It depends on the bytes of the stream only. -/
structure Inflation where
  run : Bytes → Option (Bytes × Nat)
  used_pos : ∀ {s w n}, run s = some (w, n) → 0 < n
  used_le : ∀ {s w n}, run s = some (w, n) → n ≤ s.length
  extend : ∀ {s w n} (t : Bytes), run s = some (w, n) → run (s.take n ++ t) = some (w, n)

/-- How zlib goes through the stream at the head of `s`: `At strm c acc` when it
has used `c` bytes and written `acc`. It stops short of a full output buffer
only where the input ends, and before the stream does. -/
structure Course (Z : Zlib) (std : Inflation) (s : Bytes) (At : Z.Stream → Nat → Bytes → Prop) : Prop where
  start : ∃ strm, Z.inflateInit2 = some strm ∧ At strm 0 []
  used_le : ∀ {strm c acc buf}, At strm c acc → buf <+: s.drop c →
    (Z.inflate strm buf chunk).used ≤ buf.length
  next : ∀ {strm c acc buf}, At strm c acc → buf <+: s.drop c →
    (Z.inflate strm buf chunk).ret ∈ [.ok, .bufError, .streamEnd] →
    At (Z.inflate strm buf chunk).stream (c + (Z.inflate strm buf chunk).used)
      (acc ++ (Z.inflate strm buf chunk).out)
  ended : ∀ {strm c acc buf}, At strm c acc → buf <+: s.drop c →
    (Z.inflate strm buf chunk).ret = .streamEnd →
    ∃ n, std.run s = some (acc ++ (Z.inflate strm buf chunk).out, n)
  more : ∀ {strm c acc buf}, At strm c acc → buf <+: s.drop c →
    (Z.inflate strm buf chunk).ret ∈ [.ok, .bufError] → (Z.inflate strm buf chunk).out.length ≠ chunk →
    (Z.inflate strm buf chunk).used = buf.length ∧ ∀ w n, std.run s = some (w, n) → c + buf.length < n
  refused : ∀ {strm c acc buf}, At strm c acc → buf <+: s.drop c →
    (Z.inflate strm buf chunk).ret ∉ [.ok, .bufError, .streamEnd] → std.run s = none

/-- zlib inflates every stream as the standard does. -/
def Zlib.Inflates (Z : Zlib) (std : Inflation) : Prop := ∀ s, ∃ At, Course Z std s At

variable {Z : Zlib} {std : Inflation}

/-- The inner loop fails on no stream, ends with the stream, or goes through
the whole buffer. -/
theorem inflateLoop_course {s : Bytes} {At : Z.Stream → Nat → Bytes → Prop} (course : Course Z std s At) :
    ∀ fuel strm c acc buf, At strm c acc → buf <+: s.drop c → Z.pending strm buf < fuel →
      (inflateLoop Z fuel strm buf acc acc.length = .error .failed ∧ std.run s = none) ∨
      (∃ strm' w n, inflateLoop Z fuel strm buf acc acc.length = .ok (.streamEnd, strm', w, w.length) ∧
        std.run s = some (w, n)) ∨
      (∃ ret strm' w, inflateLoop Z fuel strm buf acc acc.length = .ok (ret, strm', w, w.length) ∧
        ret ≠ .streamEnd ∧ At strm' (c + buf.length) w ∧ ∀ w n, std.run s = some (w, n) → c + buf.length < n) := by
  intro fuel
  induction fuel with
  | zero => intro strm c acc buf _ _ bound; omega
  | succ fuel ih =>
    intro strm c acc buf here inside bound
    have usedLe := course.used_le here inside
    have next := course.next here inside
    have ended := course.ended here inside
    have more := course.more here inside
    have refused := course.refused here inside
    have pending := Z.pending_step strm buf chunk
    have room : 0 < chunk := by decide
    have insideNext : buf.drop (Z.inflate strm buf chunk).used <+:
        s.drop (c + (Z.inflate strm buf chunk).used) := by
      obtain ⟨t, inside⟩ := inside
      rw [← List.drop_drop, ← inside, List.drop_append]
      exact List.prefix_append _ _
    have again : (Z.inflate strm buf chunk).out.length = chunk →
        (Z.inflate strm buf chunk).ret ∈ [.ok, .bufError, .streamEnd] → _ := fun full going =>
      ih (Z.inflate strm buf chunk).stream (c + (Z.inflate strm buf chunk).used)
        (acc ++ (Z.inflate strm buf chunk).out) (buf.drop (Z.inflate strm buf chunk).used)
        (next going) insideNext (by omega)
    have count : c + (Z.inflate strm buf chunk).used + (buf.drop (Z.inflate strm buf chunk).used).length =
        c + buf.length := by
      rw [List.length_drop]
      omega
    rw [count] at again
    simp only [inflateLoop]
    rw [pwrite_append rfl, ← List.length_append]
    cases ret : (Z.inflate strm buf chunk).ret with
    | streamError | needDict | dataError | memError => exact .inl ⟨rfl, refused (by simp [ret])⟩
    | streamEnd =>
      simp only
      by_cases full : (Z.inflate strm buf chunk).out.length = chunk
      · rw [if_pos full]
        exact again full (by simp [ret])
      · rw [if_neg full]
        obtain ⟨n, run⟩ := ended ret
        exact .inr (.inl ⟨_, _, n, rfl, run⟩)
    | ok | bufError =>
      simp only
      by_cases full : (Z.inflate strm buf chunk).out.length = chunk
      · rw [if_pos full]
        exact again full (by simp [ret])
      · rw [if_neg full]
        obtain ⟨all, before⟩ := more (by simp [ret]) full
        have next := next (by simp [ret])
        rw [all] at next
        exact .inr (.inr ⟨_, _, _, rfl, by simp, next, before⟩)

/-- The outer loop, from any point before the end of the stream. -/
theorem xdecompressLoop_course {fdIn : Bytes} {off : Nat} {At : Z.Stream → Nat → Bytes → Prop}
    (course : Course Z std (fdIn.drop off) At) :
    ∀ fuel ret strm c acc, At strm c acc → ret ≠ .streamEnd → fdIn.length - (off + c) < fuel →
      (∀ w n, std.run (fdIn.drop off) = some (w, n) → c < n) →
      xdecompressLoop Z fdIn fuel ret strm (off + c) acc acc.length =
        match std.run (fdIn.drop off) with
        | some (w, _) => .ok w
        | none => .error .failed := by
  intro fuel
  induction fuel with
  | zero => intro ret strm c acc _ _ bound; omega
  | succ fuel ih =>
    intro ret strm c acc here going bound before
    have window : slice fdIn (off + c) chunk <+: (fdIn.drop off).drop c := by
      rw [List.drop_drop]
      exact List.take_prefix _ _
    simp only [xdecompressLoop]
    by_cases eof : (slice fdIn (off + c) chunk).length = 0
    · rw [if_pos eof, if_neg going]
      cases run : std.run (fdIn.drop off) with
      | none => rfl
      | some result =>
        obtain ⟨w, n⟩ := result
        have short := std.used_le run
        have late := before w n run
        have room : 0 < chunk := by decide
        rw [slice_length] at eof
        rw [List.length_drop] at short
        omega
    · rw [if_neg eof]
      rcases inflateLoop_course course _ strm c acc _ here window (Nat.lt_succ_self _) with
        ⟨run, none⟩ | ⟨strm', w, n, run, some⟩ | ⟨ret', strm', w, run, going', next, before'⟩
      · rw [run, none]
      · rw [run, some]
        rfl
      · rw [run]
        simp only
        rw [if_neg going', Nat.add_assoc]
        exact ih ret' strm' _ w next going' (by rw [slice_length] at eof ⊢; omega) before'

/-- **`xdecompress` inflates.** It writes the expansion of the stream at its
input position, and fails when there is none. -/
theorem xdecompress_eq (inflates : Z.Inflates std) (fdIn : Bytes) (offsetIn bytes : Nat) :
    xdecompress Z fdIn [] offsetIn 0 bytes =
      match std.run (fdIn.drop offsetIn) with
      | some (w, _) => .ok w
      | none => .error .failed := by
  obtain ⟨At, course⟩ := inflates (fdIn.drop offsetIn)
  obtain ⟨strm, init, here⟩ := course.start
  rw [xdecompress, init]
  exact xdecompressLoop_course course (fdIn.length + 1) .ok strm 0 [] here (by simp) (by omega)
    fun w n run => std.used_pos run

/-! ## A zlib for every reading -/

theorem Inflation.run_of_take {s w : Bytes} {k n : Nat} (run : std.run (s.take k) = some (w, n)) :
    std.run s = some (w, n) := by
  have short := std.used_le run
  rw [List.length_take] at short
  have glued := std.extend (s.drop n) run
  rw [List.take_take, Nat.min_eq_left (by omega), List.take_append_drop] at glued
  exact glued

theorem Inflation.run_take {s w : Bytes} {k n : Nat} (run : std.run s = some (w, n)) (enough : n ≤ k) :
    std.run (s.take k) = some (w, n) := by
  have glued := std.extend ((s.take k).drop n) run
  have head : s.take n = (s.take k).take n := by rw [List.take_take, Nat.min_eq_left enough]
  rw [head, List.take_append_drop] at glued
  exact glued

/-- A zlib that keeps its input until the stream is complete and then writes
the expansion, buffer by buffer. A stream is the input kept and the number of
bytes written. -/
def Inflation.zlib (std : Inflation) : Zlib where
  Stream := Bytes × Nat
  inflateInit2 := some ([], 0)
  inflate := fun (input, written) buf room =>
    match std.run (input ++ buf) with
    | none => { ret := .ok, stream := (input ++ buf, written), used := buf.length, out := [] }
    | some (w, _) =>
      { ret := if w.length ≤ written + room then .streamEnd else .ok
        stream := (input, written + (slice w written room).length)
        used := 0
        out := slice w written room }
  pending := fun (input, written) buf =>
    match std.run (input ++ buf) with
    | none => 0
    | some (w, _) => w.length - written
  pending_step := by
    rintro ⟨input, written⟩ buf room
    cases run : std.run (input ++ buf) with
    | none => simp [run]
    | some result =>
      simp only [run, List.drop_zero, slice_length]
      omega

/-- A call before the stream is complete only keeps its input. -/
theorem Inflation.zlib_keeps {input buf : Bytes} {written room : Nat} (run : std.run (input ++ buf) = none) :
    std.zlib.inflate (input, written) buf room =
      { ret := .ok, stream := (input ++ buf, written), used := buf.length, out := [] } := by
  simp only [Inflation.zlib, run]

/-- A call on a complete stream writes the next part of the expansion. -/
theorem Inflation.zlib_writes {input buf w : Bytes} {written room n : Nat}
    (run : std.run (input ++ buf) = some (w, n)) :
    std.zlib.inflate (input, written) buf room =
      { ret := if w.length ≤ written + room then .streamEnd else .ok
        stream := (input, written + (slice w written room).length)
        used := 0
        out := slice w written room } := by
  simp only [Inflation.zlib, run]

/-- It keeps the contract: the stream holds the input used, and what was
written starts the expansion. -/
theorem Inflation.zlib_inflates (std : Inflation) : std.zlib.Inflates std := by
  intro s
  have kept : ∀ {c : Nat} {buf : Bytes}, buf <+: s.drop c → s.take c ++ buf = s.take (c + buf.length) := by
    rintro c buf ⟨t, inside⟩
    rw [List.take_add, ← inside, List.take_left]
  have behind : ∀ {acc w : Bytes}, acc <+: w → acc ++ slice w acc.length chunk = w.take (acc.length + chunk) := by
    intro acc w written
    rw [List.take_add, ← List.prefix_iff_eq_take.mp written, slice]
  refine ⟨fun strm c acc => strm = (s.take c, acc.length) ∧ ∀ w n, std.run s = some (w, n) → acc <+: w,
    ⟨_, rfl, rfl, fun _ _ _ => List.nil_prefix⟩, ?_, ?_, ?_, ?_, ?_⟩
  all_goals
    rintro _ c acc buf ⟨rfl, written⟩ inside
    rcases run : std.run (s.take c ++ buf) with _ | ⟨w, n⟩
  · exact Nat.le_of_eq (by rw [std.zlib_keeps run])
  · rw [std.zlib_writes run]
    exact Nat.zero_le _
  · rw [std.zlib_keeps run]
    rw [kept inside]
    simp only [List.append_nil]
    exact fun _ => ⟨rfl, written⟩
  · rw [std.zlib_writes run]
    rw [kept inside] at run
    have start := written w n (std.run_of_take run)
    refine fun _ => ⟨by rw [List.length_append]; rfl, fun w' n' whole => ?_⟩
    rw [std.run_of_take run] at whole
    cases whole
    rw [behind start]
    exact List.take_prefix _ _
  · rw [std.zlib_keeps run]
    exact fun ret => by cases ret
  · rw [std.zlib_writes run]
    rw [kept inside] at run
    have start := written w n (std.run_of_take run)
    intro ret
    simp only at ret
    split at ret
    · rw [behind start, List.take_of_length_le ‹_›]
      exact ⟨n, std.run_of_take run⟩
    · cases ret
  · rw [std.zlib_keeps run]
    refine fun _ _ => ⟨rfl, fun w n whole => Nat.lt_of_not_le fun enough => ?_⟩
    rw [kept inside, std.run_take whole enough] at run
    cases run
  · rw [std.zlib_writes run]
    intro ret short
    exfalso
    simp only at ret short
    split at ret
    · simp at ret
    · rw [slice_length] at short
      omega
  · rw [std.zlib_keeps run]
    simp
  · rw [std.zlib_writes run]
    simp only
    split <;> simp

/-- The streams that are one final stored block: the block header, the length,
its complement, the bytes. -/
def storedBlockRun (s : Bytes) : Option (Bytes × Nat) :=
  if s.head? = some 1 ∧ word16 (slice s 3 2) = ~~~ word16 (slice s 1 2) ∧
      5 + (word16 (slice s 1 2)).toNat ≤ s.length then
    some (slice s 5 (word16 (slice s 1 2)).toNat, 5 + (word16 (slice s 1 2)).toNat)
  else none

theorem storedBlockRun_some {s w : Bytes} {n : Nat} (run : storedBlockRun s = some (w, n)) :
    n = 5 + (word16 (slice s 1 2)).toNat ∧ n ≤ s.length := by
  rw [storedBlockRun] at run
  split at run
  · rename_i block
    cases run
    exact ⟨rfl, block.2.2⟩
  · cases run

theorem slice_extend {s : Bytes} {off k n : Nat} (inside : off + k ≤ n) (le : n ≤ s.length) (t : Bytes) :
    slice (s.take n ++ t) off k = slice s off k := by
  rw [slice_append_left (by rw [List.length_take]; omega), slice, slice, List.drop_take, List.take_take,
    Nat.min_eq_left (by omega)]

def storedBlock : Inflation where
  run := storedBlockRun
  used_pos := by
    intro s w n run
    obtain ⟨rfl, -⟩ := storedBlockRun_some run
    omega
  used_le run := (storedBlockRun_some run).2
  extend := by
    intro s w n t run
    obtain ⟨size, le⟩ := storedBlockRun_some run
    have head : (s.take n ++ t).head? = s.head? := by
      obtain ⟨k, rfl⟩ : ∃ k, n = k + 1 := ⟨n - 1, by omega⟩
      cases s with
      | nil => simp at le
      | cons b s => rfl
    have len : 5 + (word16 (slice s 1 2)).toNat ≤ (s.take n ++ t).length := by
      rw [List.length_append, List.length_take]
      omega
    rw [← run, storedBlockRun, storedBlockRun, head, slice_extend (by omega) le, slice_extend (by omega) le,
      slice_extend (by omega) le]
    simp only [len, (by omega : 5 + (word16 (slice s 1 2)).toNat ≤ s.length)]

end OpenDelta.Zip
