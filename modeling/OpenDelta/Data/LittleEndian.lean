import Mathlib.Algebra.Group.Nat.Defs
import Mathlib.Algebra.Group.Int.Defs
import Mathlib.Data.List.Basic

/-!
# Little-endian words

A number as its `w` low bytes, least significant first, and back. The two maps
are inverse on lists of the right length and on words of the right width;
`UInt16` and `UInt32` are the widths a packed on-disk record uses. `split16`
and `split32` peel one word off the front of a record, so that a reader is a
chain of them and reading back a written record is one `simp`.
-/

namespace OpenDelta.LittleEndian

/-- The `w` low bytes of `n`, least significant first. -/
def encode : Nat → Nat → List UInt8
  | 0, _ => []
  | w + 1, n => UInt8.ofNat n :: encode w (n / 256)

/-- The number whose bytes, least significant first, are the list. -/
def decode : List UInt8 → Nat
  | [] => 0
  | b :: bs => b.toNat + 256 * decode bs

@[simp] theorem encode_length (w n : Nat) : (encode w n).length = w := by
  induction w generalizing n with
  | zero => rfl
  | succ w ih => simp [encode, ih]

theorem decode_lt (bs : List UInt8) : decode bs < 256 ^ bs.length := by
  induction bs with
  | nil => simp [decode]
  | cons b bs ih =>
    have byte := b.toNat_lt
    simp only [decode, List.length_cons, Nat.pow_succ]
    omega

theorem decode_encode {w n : Nat} (fits : n < 256 ^ w) : decode (encode w n) = n := by
  induction w generalizing n with
  | zero => simp only [Nat.pow_zero] at fits; simp [encode, decode]; omega
  | succ w ih =>
    have tail : n / 256 < 256 ^ w := by
      rw [Nat.pow_succ] at fits
      omega
    simp only [encode, decode, ih tail, UInt8.toNat_ofNat']
    omega

theorem encode_decode (bs : List UInt8) : encode bs.length (decode bs) = bs := by
  induction bs with
  | nil => rfl
  | cons b bs ih =>
    have byte := b.toNat_lt
    have low : UInt8.ofNat (b.toNat + 256 * decode bs) = b := by
      apply UInt8.toNat_inj.mp
      simp only [UInt8.toNat_ofNat']
      omega
    have high : (b.toNat + 256 * decode bs) / 256 = decode bs := by omega
    simp only [decode, encode, List.length_cons, low, high, ih]

/-! ## Fixed-width words -/

def bytes16 (x : UInt16) : List UInt8 := encode 2 x.toNat
def bytes32 (x : UInt32) : List UInt8 := encode 4 x.toNat

def word16 (bs : List UInt8) : UInt16 := UInt16.ofNat (decode bs)
def word32 (bs : List UInt8) : UInt32 := UInt32.ofNat (decode bs)

@[simp] theorem bytes16_length (x : UInt16) : (bytes16 x).length = 2 := encode_length _ _
@[simp] theorem bytes32_length (x : UInt32) : (bytes32 x).length = 4 := encode_length _ _

@[simp] theorem word16_bytes16 (x : UInt16) : word16 (bytes16 x) = x := by
  rw [word16, bytes16, decode_encode (by simpa using x.toNat_lt)]
  exact UInt16.ofNat_toNat

@[simp] theorem word32_bytes32 (x : UInt32) : word32 (bytes32 x) = x := by
  rw [word32, bytes32, decode_encode (by simpa using x.toNat_lt)]
  exact UInt32.ofNat_toNat

theorem bytes16_word16 {bs : List UInt8} (len : bs.length = 2) : bytes16 (word16 bs) = bs := by
  have bound := decode_lt bs
  rw [len] at bound
  rw [bytes16, word16, UInt16.toNat_ofNat_of_lt' (by simpa using bound), ← len, encode_decode]

theorem bytes32_word32 {bs : List UInt8} (len : bs.length = 4) : bytes32 (word32 bs) = bs := by
  have bound := decode_lt bs
  rw [len] at bound
  rw [bytes32, word32, UInt32.toNat_ofNat_of_lt' (by simpa using bound), ← len, encode_decode]

/-- The first word of a record and what follows it. -/
def split16 (bs : List UInt8) : UInt16 × List UInt8 := (word16 (bs.take 2), bs.drop 2)
def split32 (bs : List UInt8) : UInt32 × List UInt8 := (word32 (bs.take 4), bs.drop 4)

@[simp] theorem split16_append (x : UInt16) (bs : List UInt8) : split16 (bytes16 x ++ bs) = (x, bs) := by
  have front : (bytes16 x ++ bs).take 2 = bytes16 x := List.take_left' (bytes16_length x)
  have back : (bytes16 x ++ bs).drop 2 = bs := List.drop_left' (bytes16_length x)
  rw [split16, front, back, word16_bytes16]

@[simp] theorem split32_append (x : UInt32) (bs : List UInt8) : split32 (bytes32 x ++ bs) = (x, bs) := by
  have front : (bytes32 x ++ bs).take 4 = bytes32 x := List.take_left' (bytes32_length x)
  have back : (bytes32 x ++ bs).drop 4 = bs := List.drop_left' (bytes32_length x)
  rw [split32, front, back, word32_bytes32]

@[simp] theorem split16_bytes16 (x : UInt16) : split16 (bytes16 x) = (x, []) := by
  simpa using split16_append x []

@[simp] theorem split32_bytes32 (x : UInt32) : split32 (bytes32 x) = (x, []) := by
  simpa using split32_append x []

@[simp] theorem split16_rest_length (bs : List UInt8) : (split16 bs).2.length = bs.length - 2 := by
  simp [split16]

@[simp] theorem split32_rest_length (bs : List UInt8) : (split32 bs).2.length = bs.length - 4 := by
  simp [split32]

/-- A word and its rest put together again. -/
theorem split16_join {bs : List UInt8} (len : 2 ≤ bs.length) :
    bytes16 (split16 bs).1 ++ (split16 bs).2 = bs := by
  simp only [split16]
  rw [bytes16_word16 (by rw [List.length_take]; omega), List.take_append_drop]

theorem split32_join {bs : List UInt8} (len : 4 ≤ bs.length) :
    bytes32 (split32 bs).1 ++ (split32 bs).2 = bs := by
  simp only [split32]
  rw [bytes32_word32 (by rw [List.length_take]; omega), List.take_append_drop]

/-- The last word of a record is all that is left of it. -/
theorem split32_last {bs : List UInt8} (len : bs.length = 4) : bytes32 (split32 bs).1 = bs := by
  simp only [split32]
  rw [List.take_of_length_le (by omega), bytes32_word32 len]

end OpenDelta.LittleEndian
