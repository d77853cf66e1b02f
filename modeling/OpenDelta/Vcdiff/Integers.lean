import Mathlib.Algebra.Group.Nat.Defs
import OpenDelta.Data.ByteFile

/-!
# Integers of a delta

The integers of the format, seven bits to a byte and the most significant first;
every byte but the last is marked. `xdelta3.c` has one macro for each of its three
operations, with the type and the mask of the bits that a further byte would push
out: `emitInteger` writes, `readInteger` reads from a section that is there as a
whole, `decodeInteger` from an input that may end within the integer.

Reading gives back what was written (`readInteger_emitInteger`), and a reader
accepts exactly the marked numbers that fit its type (`readInteger_ok_iff`).
-/

namespace OpenDelta.Vcdiff

/-- The errors of the decoder. -/
inductive Code where
  | internal | invalidInput | unimplemented | nomem
  deriving DecidableEq, Repr

/-- A return with an error, and the `msg` of the stream. -/
structure Failure where
  code : Code
  msg : String
  deriving DecidableEq, Repr

/-- `UINT32_OFLOW_MASK` -/
def uint32OflowMask : Nat := 0xfe000000

/-- `UINT64_OFLOW_MASK` -/
def uint64OflowMask : Nat := 0xfe00000000000000

/-- The turn of a reader: the bits so far make room for seven more. -/
def push (val : Nat) (next : UInt8) : Nat := val <<< 7 ||| (next &&& 127).toNat

/-- `READ_INTEGER_TYPE`, from the bits that are read already. -/
def readInteger (oflow : Nat) (val : Nat) : Bytes → Except Failure (Nat × Bytes)
  | [] => .error ⟨.invalidInput, "end-of-input in read_integer"⟩
  | next :: inp =>
    if val &&& oflow ≠ 0 then .error ⟨.invalidInput, "overflow in read_intger"⟩
    else if next &&& 128 ≠ 0 then readInteger oflow (push val next) inp
    else .ok (push val next, inp)

def readUint32 : Bytes → Except Failure (Nat × Bytes) := readInteger uint32OflowMask 0

/-- A size is 32 bits wide. -/
def readSize : Bytes → Except Failure (Nat × Bytes) := readUint32

/-- What decoding an integer comes to: its value and the rest of the input, the
bits so far when the input is used up, or an error, behind which this input is left. -/
inductive Decoded where
  | value (val : Nat) (input : Bytes)
  | partly (part : Nat)
  | fails (failure : Failure) (part : Nat) (input : Bytes)
  deriving DecidableEq

/-- `DECODE_INTEGER_TYPE`, with the part of the integer that came before. -/
def decodeInteger (oflow : Nat) (part : Nat) : Bytes → Decoded
  | [] => .partly part
  | next :: input =>
    if part &&& oflow ≠ 0 then .fails ⟨.invalidInput, "overflow in decode_integer"⟩ part input
    else if next &&& 128 = 0 then .value (push part next) input
    else decodeInteger oflow (push part next) input

/-- The loop of `EMIT_INTEGER_TYPE`, which fills the buffer from its end. -/
def fillBuf (num : Nat) (buf : Bytes) : Bytes :=
  let buf := UInt8.ofNat (num &&& 127 ||| 128) :: buf
  if num >>> 7 ≠ 0 then fillBuf (num >>> 7) buf else buf
termination_by num
decreasing_by
  rw [Nat.shiftRight_eq_div_pow] at *
  omega

/-- `EMIT_INTEGER_TYPE`: the bytes of the buffer, the last without its mark. -/
def emitInteger (num : Nat) : Bytes := (fillBuf num []).dropLast ++ ((fillBuf num []).getLast?.map (· &&& 127)).toList

def emitSize (num : Nat) : Bytes := emitInteger num

def emitOffset (num : Nat) : Bytes := emitInteger num

/-- `xd3_sizeof_uint32_t` -/
def sizeofSize (num : Nat) : Nat :=
  if num < 1 <<< 7 then 1
  else if num < 1 <<< 14 then 2
  else if num < 1 <<< 21 then 3
  else if num < 1 <<< 28 then 4
  else 5

/-! ## Bits -/

/-- A number has none of the `m` bits from `k` on. -/
theorem and_mask_eq_zero {val k m : Nat} (fits : val < 2 ^ (k + m)) : val &&& (2 ^ m - 1) <<< k = 0 ↔ val < 2 ^ k := by
  have cut : (val &&& (2 ^ m - 1) <<< k) >>> k = val / 2 ^ k := by
    rw [Nat.shiftRight_and_distrib, Nat.shiftLeft_shiftRight, Nat.and_two_pow_sub_one_eq_mod,
      Nat.shiftRight_eq_div_pow, Nat.mod_eq_of_lt]
    rw [Nat.pow_add] at fits
    exact Nat.div_lt_of_lt_mul fits
  constructor
  · intro none
    rw [none, Nat.zero_shiftRight] at cut
    exact (Nat.div_eq_zero_iff.mp cut.symm).resolve_left (by simp)
  · intro small
    apply Nat.eq_of_testBit_eq
    intro i
    rw [Nat.testBit_and, Nat.testBit_shiftLeft, Nat.zero_testBit]
    by_cases below : i < k
    · simp [Nat.not_le.mpr below]
    · rw [Nat.testBit_lt_two_pow (Nat.lt_of_lt_of_le small (Nat.pow_le_pow_right (by omega) (Nat.le_of_not_lt below)))]
      rfl

/-- The bits that a further byte pushes out of an integer of `k + 7` bits. -/
structure Oflow (oflow k : Nat) : Prop where
  mask : oflow = (2 ^ 7 - 1) <<< k

theorem oflow32 : Oflow uint32OflowMask 25 := ⟨rfl⟩

theorem oflow64 : Oflow uint64OflowMask 57 := ⟨rfl⟩

section Push

variable {val : Nat} {next : UInt8}

theorem low_bits (next : UInt8) : (next &&& 127).toNat = next.toNat % 128 := by
  rw [UInt8.toNat_and]
  exact Nat.and_two_pow_sub_one_eq_mod next.toNat 7

theorem push_eq (val : Nat) (next : UInt8) : push val next = val * 128 + next.toNat % 128 := by
  have low : next.toNat % 128 < 2 ^ 7 := by omega
  rw [push, low_bits, ← Nat.shiftLeft_add_eq_or_of_lt low, Nat.shiftLeft_eq]

/-- A byte with its mark. -/
theorem marked_iff (next : UInt8) : next &&& 128 ≠ 0 ↔ 128 ≤ next.toNat := by
  have high : next.toNat &&& (2 ^ 1 - 1) <<< 7 = 0 ↔ next.toNat < 2 ^ 7 := and_mask_eq_zero next.toNat_lt
  have same : next &&& 128 = 0 ↔ next.toNat &&& (2 ^ 1 - 1) <<< 7 = 0 := by
    rw [← UInt8.toNat_inj, UInt8.toNat_and]
    rfl
  rw [ne_eq, same, high]
  omega

theorem push_ofNat {digit : Nat} (small : digit < 128) (mark : Nat) (marks : mark = 0 ∨ mark = 128) :
    push val (UInt8.ofNat (digit + mark)) = val * 128 + digit := by
  rw [push_eq, UInt8.toNat_ofNat']
  omega

theorem le_push : val ≤ push val next := by
  rw [push_eq]
  omega

theorem push_lt {k : Nat} (room : val < 2 ^ k) : push val next < 2 ^ (k + 7) := by
  rw [push_eq, Nat.pow_add]
  omega

theorem lt_of_push {k : Nat} (fits : push val next < 2 ^ (k + 7)) : val < 2 ^ k := by
  rw [push_eq, Nat.pow_add] at fits
  omega

end Push

/-! ## What is written -/

/-- The marked bytes of a number; of 0 there are none. -/
def marked (num : Nat) : Bytes :=
  if num = 0 then [] else marked (num / 128) ++ [UInt8.ofNat (num % 128 + 128)]

theorem marked_zero : marked 0 = [] := by
  rw [marked, if_pos rfl]

theorem marked_pos {num : Nat} (pos : num ≠ 0) : marked num = marked (num / 128) ++ [UInt8.ofNat (num % 128 + 128)] := by
  rw [marked, if_neg pos]

theorem set_mark (num : Nat) : num &&& 127 ||| 128 = num % 128 + 128 := by
  have low : num % 128 < 2 ^ 7 := by omega
  have sum := Nat.two_pow_add_eq_or_of_lt low 1
  rw [show num &&& 127 = num % 128 from Nat.and_two_pow_sub_one_eq_mod num 7, Nat.or_comm, Nat.add_comm]
  exact sum.symm

theorem fillBuf_eq (num : Nat) (buf : Bytes) :
    fillBuf num buf = marked (num / 128) ++ UInt8.ofNat (num % 128 + 128) :: buf := by
  induction num using Nat.strongRecOn generalizing buf with
  | ind num ih =>
    rw [fillBuf]
    simp only [set_mark, Nat.shiftRight_eq_div_pow, ne_eq, ite_not]
    split
    · rename_i last
      rw [show num / 128 = 0 from last, marked_zero, List.nil_append]
    · rename_i more
      rw [ih _ (by omega), @marked_pos (num / 128) more, List.append_assoc, List.singleton_append]

theorem emitInteger_eq (num : Nat) : emitInteger num = marked (num / 128) ++ [UInt8.ofNat (num % 128)] := by
  have last : UInt8.ofNat (num % 128 + 128) &&& 127 = UInt8.ofNat (num % 128) := by
    apply UInt8.toNat_inj.mp
    rw [low_bits, UInt8.toNat_ofNat', UInt8.toNat_ofNat']
    omega
  rw [emitInteger, fillBuf_eq, List.dropLast_concat, List.getLast?_concat, Option.map_some, last]
  rfl

theorem marked_length {num n : Nat} (few : num < 128 ^ n) : (marked num).length ≤ n := by
  induction n generalizing num with
  | zero => simp [show num = 0 by omega, marked_zero]
  | succ n ih =>
    by_cases zero : num = 0
    · simp [zero, marked_zero]
    · have := @ih (num / 128) (by rw [Nat.pow_succ] at few; omega)
      rw [marked_pos zero, List.length_append, List.length_singleton]
      omega

theorem le_marked_length {num n : Nat} (many : 128 ^ n ≤ num) : n + 1 ≤ (marked num).length := by
  induction n generalizing num with
  | zero =>
    rw [marked_pos (by omega), List.length_append, List.length_singleton]
    omega
  | succ n ih =>
    have pos : 0 < 128 ^ (n + 1) := Nat.pow_pos (by omega)
    have := @ih (num / 128) (by rw [Nat.pow_succ] at many; omega)
    rw [marked_pos (by omega), List.length_append, List.length_singleton]
    omega

/-- `xd3_sizeof_size` counts the bytes that `xd3_emit_size` writes. -/
theorem emitSize_length {num : Nat} (fits : num < 2 ^ 32) : (emitSize num).length = sizeofSize num := by
  rw [emitSize, emitInteger_eq, List.length_append, List.length_singleton]
  unfold sizeofSize
  simp only [Nat.one_shiftLeft]
  have upper (n : Nat) := @marked_length (num / 128) n
  have lower (n : Nat) := @le_marked_length (num / 128) n
  split
  · have := upper 0 (by omega)
    omega
  split
  · have := upper 1 (by omega)
    have := lower 0 (by omega)
    omega
  split
  · have := upper 2 (by omega)
    have := lower 1 (by omega)
    omega
  split
  · have := upper 3 (by omega)
    have := lower 2 (by omega)
    omega
  · have := upper 4 (by omega)
    have := lower 3 (by omega)
    omega

/-! ## What is read -/

/-- The number that marked bytes and a last one come to, after `val`. -/
def valueFrom (val : Nat) (bytes : Bytes) : Nat := bytes.foldl push val

theorem le_valueFrom (val : Nat) (bytes : Bytes) : val ≤ valueFrom val bytes := by
  induction bytes generalizing val with
  | nil => exact Nat.le_refl _
  | cons next bytes ih => exact Nat.le_trans le_push (ih _)

/-- One integer: marked bytes and one that is not. -/
structure Terminated (bytes : Bytes) : Prop where
  ends : ∃ marks last, bytes = marks ++ [last] ∧ (∀ b ∈ marks, 128 ≤ b.toNat) ∧ last.toNat < 128

theorem Terminated.cons_iff {next : UInt8} {bytes : Bytes} :
    Terminated (next :: bytes) ↔ (128 ≤ next.toNat ∧ Terminated bytes) ∨ (next.toNat < 128 ∧ bytes = []) := by
  constructor
  · rintro ⟨marks, last, split, high, low⟩
    cases marks with
    | nil =>
      rw [List.nil_append, List.cons.injEq] at split
      obtain ⟨rfl, rfl⟩ := split
      exact .inr ⟨low, rfl⟩
    | cons mark marks =>
      rw [List.cons_append, List.cons.injEq] at split
      obtain ⟨rfl, rfl⟩ := split
      rw [List.forall_mem_cons] at high
      exact .inl ⟨high.1, marks, last, rfl, high.2, low⟩
  · rintro (⟨high, marks, last, rfl, rest, low⟩ | ⟨low, rfl⟩)
    · exact ⟨next :: marks, last, rfl, List.forall_mem_cons.mpr ⟨high, rest⟩, low⟩
    · exact ⟨[], next, rfl, by simp, low⟩

theorem Terminated.ne_nil {bytes : Bytes} (terminated : Terminated bytes) : bytes ≠ [] := by
  obtain ⟨marks, last, rfl, -, -⟩ := terminated
  simp

section Reading

variable {oflow k : Nat} {val num : Nat} {inp rest : Bytes}

theorem Oflow.free (mask : Oflow oflow k) (fits : val < 2 ^ (k + 7)) : val &&& oflow = 0 ↔ val < 2 ^ k := by
  rw [mask.mask]
  exact and_mask_eq_zero fits

/-- A reader accepts exactly the integers that fit. -/
theorem readInteger_ok_iff (mask : Oflow oflow k) (fits : val < 2 ^ (k + 7)) :
    readInteger oflow val inp = .ok (num, rest) ↔
      ∃ bytes, inp = bytes ++ rest ∧ Terminated bytes ∧ num = valueFrom val bytes ∧ num < 2 ^ (k + 7) := by
  induction inp generalizing val with
  | nil =>
    constructor
    · intro read
      cases read
    · rintro ⟨bytes, split, terminated, -⟩
      exact absurd (List.append_eq_nil_iff.mp split.symm).1 terminated.ne_nil
  | cons next inp ih =>
    rw [readInteger]
    by_cases room : val < 2 ^ k
    · rw [if_neg (not_not.mpr ((mask.free fits).mpr room))]
      by_cases more : 128 ≤ next.toNat
      · rw [if_pos ((marked_iff next).mpr more), ih (push_lt room)]
        constructor
        · rintro ⟨bytes, rfl, terminated, rfl, small⟩
          exact ⟨next :: bytes, rfl, Terminated.cons_iff.mpr (.inl ⟨more, terminated⟩), rfl, small⟩
        · rintro ⟨bytes, split, terminated, rfl, small⟩
          cases bytes with
          | nil => exact absurd rfl terminated.ne_nil
          | cons first bytes =>
            rw [List.cons_append, List.cons.injEq] at split
            obtain ⟨rfl, rfl⟩ := split
            rcases Terminated.cons_iff.mp terminated with ⟨-, terminated⟩ | ⟨low, -⟩
            · exact ⟨bytes, rfl, terminated, rfl, small⟩
            · omega
      · rw [if_neg (mt (marked_iff next).mp more), Except.ok.injEq, Prod.mk.injEq]
        constructor
        · rintro ⟨rfl, rfl⟩
          exact ⟨[next], rfl, Terminated.cons_iff.mpr (.inr ⟨by omega, rfl⟩), rfl, push_lt room⟩
        · rintro ⟨bytes, split, terminated, rfl, small⟩
          cases bytes with
          | nil => exact absurd rfl terminated.ne_nil
          | cons first bytes =>
            rw [List.cons_append, List.cons.injEq] at split
            obtain ⟨rfl, rfl⟩ := split
            rcases Terminated.cons_iff.mp terminated with ⟨high, -⟩ | ⟨-, rfl⟩
            · exact absurd high more
            · exact ⟨rfl, rfl⟩
    · rw [if_pos (mt (mask.free fits).mp room)]
      constructor
      · intro read
        cases read
      · rintro ⟨bytes, split, terminated, rfl, small⟩
        cases bytes with
        | nil => exact absurd rfl terminated.ne_nil
        | cons first bytes => exact absurd (lt_of_push (Nat.lt_of_le_of_lt (le_valueFrom _ bytes) small)) room

theorem valueFrom_append (val : Nat) (bytes bytes' : Bytes) :
    valueFrom val (bytes ++ bytes') = valueFrom (valueFrom val bytes) bytes' := List.foldl_append

theorem valueFrom_marked (num : Nat) : valueFrom 0 (marked num) = num := by
  induction num using Nat.strongRecOn with
  | ind num ih =>
    by_cases zero : num = 0
    · rw [zero, marked_zero, valueFrom, List.foldl_nil]
    · rw [marked_pos zero, valueFrom_append, ih _ (by omega), valueFrom, List.foldl_cons, List.foldl_nil,
        push_ofNat (by omega) 128 (.inr rfl)]
      omega

theorem valueFrom_emitInteger (num : Nat) : valueFrom 0 (emitInteger num) = num := by
  rw [emitInteger_eq, valueFrom_append, valueFrom_marked, valueFrom, List.foldl_cons, List.foldl_nil]
  have last := @push_ofNat (num / 128) (num % 128) (by omega) 0 (.inl rfl)
  rw [Nat.add_zero] at last
  rw [last]
  omega

theorem marked_marked (num : Nat) : ∀ b ∈ marked num, 128 ≤ b.toNat := by
  induction num using Nat.strongRecOn with
  | ind num ih =>
    by_cases zero : num = 0
    · simp [zero, marked_zero]
    · rw [marked_pos zero]
      intro b member
      rcases List.mem_append.mp member with before | last
      · exact ih _ (by omega) b before
      · rw [List.mem_singleton.mp last, UInt8.toNat_ofNat']
        omega

theorem emitInteger_terminated (num : Nat) : Terminated (emitInteger num) := by
  refine ⟨marked (num / 128), UInt8.ofNat (num % 128), emitInteger_eq num, marked_marked _, ?_⟩
  rw [UInt8.toNat_ofNat']
  omega

/-- Reading gives back what was written. -/
theorem readInteger_emitInteger (mask : Oflow oflow k) (fits : num < 2 ^ (k + 7)) (rest : Bytes) :
    readInteger oflow 0 (emitInteger num ++ rest) = .ok (num, rest) :=
  (readInteger_ok_iff mask (Nat.pow_pos (by omega))).mpr
    ⟨emitInteger num, rfl, emitInteger_terminated num, (valueFrom_emitInteger num).symm, fits⟩

@[simp] theorem readSize_emitSize (fits : num < 2 ^ 32) (rest : Bytes) :
    readSize (emitSize num ++ rest) = .ok (num, rest) := readInteger_emitInteger oflow32 fits rest

theorem readSize_lt (read : readSize inp = .ok (num, rest)) : num < 2 ^ 32 := by
  obtain ⟨-, -, -, -, fits⟩ := (readInteger_ok_iff oflow32 (Nat.pow_pos (by omega))).mp read
  exact fits

theorem readSize_shorter (read : readSize inp = .ok (num, rest)) : rest.length < inp.length := by
  obtain ⟨bytes, rfl, terminated, -, -⟩ := (readInteger_ok_iff oflow32 (Nat.pow_pos (by omega))).mp read
  have := List.length_pos_iff.mpr terminated.ne_nil
  rw [List.length_append]
  omega

/-- A number takes so many bytes that its marked part is below the next power. -/
theorem valueFrom_lt (val : Nat) (bytes : Bytes) : valueFrom val bytes < (val + 1) * 128 ^ bytes.length := by
  induction bytes generalizing val with
  | nil => simp [valueFrom]
  | cons next bytes ih =>
    have step := ih (push val next)
    rw [push_eq] at step
    have room : (val * 128 + next.toNat % 128 + 1) * 128 ^ bytes.length ≤ (val + 1) * 128 * 128 ^ bytes.length := by
      apply Nat.mul_le_mul_right
      omega
    rw [List.length_cons, Nat.pow_succ, Nat.mul_comm (128 ^ bytes.length), ← Nat.mul_assoc]
    rw [← push_eq] at step room
    exact Nat.lt_of_lt_of_le step room

/-- No integer is written shorter. -/
theorem emitInteger_shortest {bytes : Bytes} (terminated : Terminated bytes) :
    (emitInteger (valueFrom 0 bytes)).length ≤ bytes.length := by
  have pos := List.length_pos_iff.mpr terminated.ne_nil
  have below := valueFrom_lt 0 bytes
  rw [Nat.zero_add, Nat.one_mul] at below
  obtain ⟨n, count⟩ : ∃ n, bytes.length = n + 1 := ⟨bytes.length - 1, by omega⟩
  rw [count, Nat.pow_succ] at below
  have := @marked_length (valueFrom 0 bytes / 128) n (by omega)
  rw [emitInteger_eq, List.length_append, List.length_singleton]
  omega

end Reading

/-! ## Reading in parts -/

/-- What is decoded, with more input behind it. -/
def Decoded.further (oflow : Nat) (more : Bytes) : Decoded → Decoded
  | value val input => .value val (input ++ more)
  | partly part => decodeInteger oflow part more
  | fails failure part input => .fails failure part (input ++ more)

/-- Where the input is cut does not matter. -/
theorem decodeInteger_append (oflow part : Nat) (input more : Bytes) :
    decodeInteger oflow part (input ++ more) = (decodeInteger oflow part input).further oflow more := by
  induction input generalizing part with
  | nil => rfl
  | cons next input ih =>
    rw [List.cons_append, decodeInteger, decodeInteger]
    split
    · rfl
    split
    · rfl
    · exact ih _

/-- The integers that are decoded are those that are read. -/
theorem decodeInteger_value_iff {oflow part num : Nat} {input rest : Bytes} :
    decodeInteger oflow part input = .value num rest ↔ readInteger oflow part input = .ok (num, rest) := by
  induction input generalizing part with
  | nil => exact ⟨nofun, nofun⟩
  | cons next input ih =>
    rw [decodeInteger, readInteger]
    by_cases full : part &&& oflow ≠ 0
    · rw [if_pos full, if_pos full]
      exact ⟨nofun, nofun⟩
    · rw [if_neg full, if_neg full]
      by_cases last : next &&& 128 = 0
      · rw [if_pos last, if_neg (not_not.mpr last), Decoded.value.injEq, Except.ok.injEq, Prod.mk.injEq]
      · rw [if_neg last, if_pos last]
        exact ih

/-! ## The code of a size -/

/-- A size that is written is read back, takes as many bytes as `xd3_sizeof_size` says,
and could not be written in fewer. -/
theorem size_codec {num : Nat} (fits : num < 2 ^ 32) (rest : Bytes) :
    readSize (emitSize num ++ rest) = .ok (num, rest) ∧ (emitSize num).length = sizeofSize num ∧
      ∀ bytes, readSize bytes = .ok (num, []) → (emitSize num).length ≤ bytes.length := by
  refine ⟨readSize_emitSize fits rest, emitSize_length fits, fun bytes read => ?_⟩
  obtain ⟨code, rfl, terminated, rfl, -⟩ := (readInteger_ok_iff oflow32 (Nat.pow_pos (by omega))).mp read
  have shortest := emitInteger_shortest terminated
  rw [List.append_nil]
  exact shortest

theorem size_codec_300 :
    readSize (emitSize 300 ++ [7]) = .ok (300, [7]) ∧ (emitSize 300).length = sizeofSize 300 ∧
      ∀ bytes, readSize bytes = .ok (300, []) → (emitSize 300).length ≤ bytes.length := size_codec (by decide) [7]

/-- The readers of a section and of the input accept the same: marked bytes and one
without a mark, whose number fits the type. -/
theorem integers_accepted (inp rest : Bytes) (num : Nat) :
    (readSize inp = .ok (num, rest) ↔
      ∃ bytes, inp = bytes ++ rest ∧ Terminated bytes ∧ num = valueFrom 0 bytes ∧ num < 2 ^ 32) ∧
    (decodeInteger uint32OflowMask 0 inp = .value num rest ↔ readSize inp = .ok (num, rest)) ∧
    (decodeInteger uint64OflowMask 0 inp = .value num rest ↔
      ∃ bytes, inp = bytes ++ rest ∧ Terminated bytes ∧ num = valueFrom 0 bytes ∧ num < 2 ^ 64) := by
  refine ⟨readInteger_ok_iff oflow32 (Nat.pow_pos (by omega)), decodeInteger_value_iff, ?_⟩
  rw [decodeInteger_value_iff]
  exact readInteger_ok_iff oflow64 (Nat.pow_pos (by omega))

end OpenDelta.Vcdiff
