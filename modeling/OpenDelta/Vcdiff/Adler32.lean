import OpenDelta.Data.ByteFile
import OpenDelta.Data.RunningSums
import Mathlib.Algebra.Field.ZMod
import Mathlib.Tactic.NormNum.Prime
import Mathlib.Tactic.Linarith

/-!
# The checksum of a window

`adler32` reduces its sums only every `A32_NMAX` bytes. That is often enough for
an `unsigned long` of 32 bits: nothing is lost (`adler32_eq`), and the checksum is
the one of the running sums modulo `A32_BASE`. It notices every change of one byte
or of two that are less than `A32_BASE` apart (`adler32_detects`).
-/

namespace OpenDelta.Vcdiff

/-- `A32_BASE` -/
def a32Base : Nat := 65521

/-- `A32_NMAX` -/
def a32Nmax : Nat := 5552

/-- The two sums. -/
structure A32 where
  s1 : Nat
  s2 : Nat

section

variable (long : Nat)

/-- `A32_DO1`; an `unsigned long` has `long` bits. -/
def A32.do1 (s : A32) (b : UInt8) : A32 :=
  let s1 := (s.s1 + b.toNat) % 2 ^ long
  { s1, s2 := (s.s2 + s1) % 2 ^ long }

/-- `A32_DO16` -/
def A32.do16 (s : A32) (buf : Bytes) : A32 := (buf.take 16).foldl (A32.do1 long) s

/-- The inner loops, over the `k` bytes of a part. -/
def A32.part (s : A32) (buf : Bytes) : A32 :=
  if buf.length ≥ 16 then (A32.do16 long s buf).part (buf.drop 16) else buf.foldl (A32.do1 long) s
termination_by buf.length
decreasing_by
  rw [List.length_drop]
  omega

/-- The outer loop. -/
def A32.parts (s : A32) (buf : Bytes) : A32 :=
  if buf = [] then s
  else
    let k := if buf.length < a32Nmax then buf.length else a32Nmax
    let s := A32.part long s (buf.take k)
    A32.parts { s1 := s.s1 % a32Base, s2 := s.s2 % a32Base } (buf.drop k)
termination_by buf.length
decreasing_by
  have := List.length_pos_iff.mpr ‹buf ≠ []›
  rw [List.length_drop]
  split
  · omega
  · rw [a32Nmax]
    omega

/-- `adler32` -/
def adler32 (adler : Nat) (buf : Bytes) : Nat :=
  let s := A32.parts long { s1 := adler &&& 0xffff, s2 := adler >>> 16 &&& 0xffff } buf
  s.s2 <<< 16 ||| s.s1

end

/-! ## Nothing is lost -/

section Sums

variable {long : Nat}

theorem A32.part_eq (s : A32) (buf : Bytes) : A32.part long s buf = buf.foldl (A32.do1 long) s := by
  induction count : buf.length using Nat.strongRecOn generalizing s buf with
  | ind n ih =>
    rw [A32.part]
    split
    · rw [ih (buf.drop 16).length (by rw [List.length_drop]; omega) _ _ rfl, A32.do16, ← List.foldl_append,
        List.take_append_drop]
    · rfl

/-- A byte, as a number modulo `A32_BASE`. -/
def residue (b : UInt8) : ZMod a32Base := b.toNat

/-- The sums as numbers modulo `A32_BASE`. -/
def A32.residues (s : A32) : ZMod a32Base × ZMod a32Base := (s.s1, s.s2)

/-- So many bytes can be added without an overflow. -/
def A32.Room (s : A32) (n : Nat) : Prop := 2 * s.s2 + 2 * n * s.s1 + 255 * (n * (n + 1)) < 2 ^ 33

theorem A32.residues_do1 (wide : 32 ≤ long) {s : A32} {n : Nat} (room : s.Room (n + 1)) (b : UInt8) :
    (A32.do1 long s b).Room n ∧ (A32.do1 long s b).residues =
      (s.residues.1 + residue b, s.residues.2 + (s.residues.1 + residue b)) := by
  have byte := b.toNat_lt
  have bits : 2 ^ 32 ≤ 2 ^ long := Nat.pow_le_pow_right (by omega) wide
  have split : 2 * s.s2 + 2 * (n * s.s1) + 2 * s.s1 + 255 * (n * (n + 1)) + 510 * (n + 1) < 2 ^ 33 := by
    have : 2 * s.s2 + 2 * (n + 1) * s.s1 + 255 * ((n + 1) * (n + 1 + 1)) =
        2 * s.s2 + 2 * (n * s.s1) + 2 * s.s1 + 255 * (n * (n + 1)) + 510 * (n + 1) := by ring
    rw [← this]
    exact room
  have first : (s.s1 + b.toNat) % 2 ^ long = s.s1 + b.toNat := Nat.mod_eq_of_lt (by omega)
  have second : (s.s2 + (s.s1 + b.toNat)) % 2 ^ long = s.s2 + (s.s1 + b.toNat) := Nat.mod_eq_of_lt (by omega)
  have value : A32.do1 long s b = { s1 := s.s1 + b.toNat, s2 := s.s2 + (s.s1 + b.toNat) } := by
    rw [A32.do1, first, second]
  rw [value]
  constructor
  · have product : n * (s.s1 + b.toNat) ≤ n * s.s1 + 255 * n := by nlinarith
    show 2 * (s.s2 + (s.s1 + b.toNat)) + 2 * n * (s.s1 + b.toNat) + 255 * (n * (n + 1)) < 2 ^ 33
    rw [Nat.mul_assoc 2 n]
    omega
  · simp only [A32.residues, residue]
    push_cast
    rfl

theorem A32.residues_foldl (wide : 32 ≤ long) {s : A32} {buf : Bytes} (room : s.Room buf.length) :
    (buf.foldl (A32.do1 long) s).residues = sums residue s.residues buf := by
  induction buf generalizing s with
  | nil => rfl
  | cons b buf ih =>
    obtain ⟨left, step⟩ := A32.residues_do1 wide room b
    rw [List.foldl_cons, ih left, step]
    rfl

/-- Reduced sums leave room for `A32_NMAX` bytes. -/
theorem A32.room_of_reduced {s : A32} (s1 : s.s1 < a32Base) (s2 : s.s2 < a32Base) {n : Nat} (few : n ≤ a32Nmax) :
    s.Room n := by
  rw [a32Base] at s1 s2
  rw [a32Nmax] at few
  have squares : n * (n + 1) ≤ 5552 * 5553 := Nat.mul_le_mul few (by omega)
  have products : n * s.s1 ≤ 5552 * 65520 := Nat.mul_le_mul few (by omega)
  rw [A32.Room, Nat.mul_assoc 2 n]
  omega

/-- The sums are reduced. -/
structure A32.Reduced (s : A32) : Prop where
  s1 : s.s1 < a32Base
  s2 : s.s2 < a32Base

theorem A32.parts_eq (wide : 32 ≤ long) {s : A32} (reduced : s.Reduced) (buf : Bytes) :
    (A32.parts long s buf).Reduced ∧ (A32.parts long s buf).residues = sums residue s.residues buf := by
  induction count : buf.length using Nat.strongRecOn generalizing s buf with
  | ind n ih =>
    rw [A32.parts]
    split
    · rename_i none
      rw [none]
      exact ⟨reduced, rfl⟩
    · rename_i some
      have pos := List.length_pos_iff.mpr some
      dsimp only
      generalize k_eq : (if buf.length < a32Nmax then buf.length else a32Nmax) = k
      have k_le : k ≤ a32Nmax := by
        rw [← k_eq]
        split <;> omega
      have k_pos : 0 < k := by
        rw [← k_eq, a32Nmax]
        split <;> omega
      generalize next_eq : A32.part long s (buf.take k) = next
      have residues : next.residues = sums residue s.residues (buf.take k) := by
        rw [← next_eq, A32.part_eq]
        apply A32.residues_foldl wide
        apply A32.room_of_reduced reduced.s1 reduced.s2
        rw [List.length_take]
        omega
      have later : ({ s1 := next.s1 % a32Base, s2 := next.s2 % a32Base } : A32).Reduced :=
        ⟨Nat.mod_lt _ (by decide), Nat.mod_lt _ (by decide)⟩
      have same : ({ s1 := next.s1 % a32Base, s2 := next.s2 % a32Base } : A32).residues = next.residues := by
        simp only [A32.residues, ZMod.natCast_mod]
      obtain ⟨below, sum⟩ := ih (buf.drop k).length (by rw [List.length_drop]; omega) later (buf.drop k) rfl
      refine ⟨below, ?_⟩
      rw [sum, same, residues, ← sums_append, List.take_append_drop]

/-- The checksum, put together from the running sums of the bytes. -/
theorem adler32_eq (wide : 32 ≤ long) (buf : Bytes) :
    adler32 long 1 buf = (sums residue (1, 0) buf).2.val <<< 16 ||| (sums residue (1, 0) buf).1.val := by
  have first : ({ s1 := 1 &&& 0xffff, s2 := 1 >>> 16 &&& 0xffff } : A32).Reduced := ⟨by decide, by decide⟩
  obtain ⟨reduced, residues⟩ := A32.parts_eq wide first buf
  have start : ({ s1 := 1 &&& 0xffff, s2 := 1 >>> 16 &&& 0xffff } : A32).residues = (1, 0) := by
    simp [A32.residues]
  rw [start] at residues
  rw [adler32, ← residues, A32.residues]
  dsimp only
  rw [ZMod.val_natCast_of_lt reduced.s1, ZMod.val_natCast_of_lt reduced.s2]

/-! ## What it notices -/

theorem combine_inj {a b c d : Nat} (low : b < 2 ^ 16) (low' : d < 2 ^ 16) (same : a <<< 16 ||| b = c <<< 16 ||| d) :
    a = c ∧ b = d := by
  rw [← Nat.shiftLeft_add_eq_or_of_lt low, ← Nat.shiftLeft_add_eq_or_of_lt low', Nat.shiftLeft_eq, Nat.shiftLeft_eq] at same
  omega

theorem residue_inj {b b' : UInt8} (same : residue b = residue b') : b = b' := by
  have values := congrArg ZMod.val same
  have small (b : UInt8) : b.toNat < a32Base := Nat.lt_trans b.toNat_lt (by decide)
  rw [residue, residue, ZMod.val_natCast_of_lt (small b), ZMod.val_natCast_of_lt (small b')] at values
  exact UInt8.toNat_inj.mp values

instance : Fact (Nat.Prime a32Base) := ⟨by rw [a32Base]; norm_num⟩

theorem sums_of_adler32 (wide : 32 ≤ long) {buf buf' : Bytes} (same : adler32 long 1 buf = adler32 long 1 buf') :
    sums residue (1, 0) buf = sums residue (1, 0) buf' := by
  have low (z : ZMod a32Base) : z.val < 2 ^ 16 := Nat.lt_trans z.val_lt (by decide)
  rw [adler32_eq wide, adler32_eq wide] at same
  obtain ⟨second, first⟩ := combine_inj (low _) (low _) same
  exact Prod.ext (ZMod.val_injective _ first) (ZMod.val_injective _ second)

/-- Two bytes are less than `A32_BASE` apart and have changed. -/
theorem adler32_two (wide : 32 ≤ long) {before between after : Bytes} {x x' y y' : UInt8}
    (near : between.length + 1 < a32Base)
    (same : adler32 long 1 (before ++ x :: (between ++ y :: after)) =
      adler32 long 1 (before ++ x' :: (between ++ y' :: after))) : x = x' ∧ y = y' := by
  obtain ⟨opposite, weighed⟩ := sums_eq_two (sums_of_adler32 wide same)
  have apart : ((between.length : ZMod a32Base) + 1) ≠ 0 := by
    intro zero
    have cast : ((between.length + 1 : Nat) : ZMod a32Base) = 0 := by
      push_cast
      exact zero
    have divides := (ZMod.natCast_eq_zero_iff _ _).mp cast
    exact absurd (Nat.le_of_dvd (by omega) divides) (by omega)
  have equal : residue x - residue x' = 0 := (mul_eq_zero.mp weighed).resolve_left apart
  rw [equal] at opposite
  exact ⟨residue_inj (sub_eq_zero.mp equal), (residue_inj (sub_eq_zero.mp opposite.symm)).symm⟩

/-- One byte is another, or one or both of two that are less than `A32_BASE` apart. -/
inductive Garbled : Bytes → Bytes → Prop where
  | one (before after : Bytes) {x x' : UInt8} : x ≠ x' → Garbled (before ++ x :: after) (before ++ x' :: after)
  | two (before between after : Bytes) {x x' y y' : UInt8} : between.length + 1 < a32Base → x ≠ x' ∨ y ≠ y' →
    Garbled (before ++ x :: (between ++ y :: after)) (before ++ x' :: (between ++ y' :: after))

/-- Bytes that have been garbled have another checksum. -/
theorem adler32_detects (wide : 32 ≤ long) {buf buf' : Bytes} (garbled : Garbled buf buf') :
    adler32 long 1 buf ≠ adler32 long 1 buf' := by
  intro same
  cases garbled with
  | one before after changed => exact changed (residue_inj (sums_eq_one (sums_of_adler32 wide same)))
  | two before between after near changed =>
    obtain ⟨first, second⟩ := adler32_two wide near same
    exact changed.elim (absurd first) (absurd second)

end Sums

end OpenDelta.Vcdiff
