import Mathlib.Algebra.Group.Nat.Defs

/-!
# Buffer sizes

`opendelta.sh` gives `xdelta3` a source buffer of the next power of two. The
number is found by copying every bit over the bits below it. Five doublings reach
31 bits down, which is all of a 32-bit word; the arithmetic is on 64 bits.
-/

namespace OpenDelta.Server

/-- `v |= v >> k`, with an arithmetic shift. -/
def orShifted (v : BitVec 64) (k : Nat) : BitVec 64 := v ||| v.sshiftRight k

def nextPowerOf2 (v : BitVec 64) : BitVec 64 :=
  let v := v - 1
  let v := orShifted v 1
  let v := orShifted v 2
  let v := orShifted v 4
  let v := orShifted v 8
  let v := orShifted v 16
  v + 1

/-! ## Smearing -/

/-- Every bit of `v` is copied over the `n - 1` bits below it. -/
def Smeared (v u : BitVec 64) (n : Nat) : Prop := ∀ i, u.getLsbD i = true ↔ ∃ j < n, v.getLsbD (i + j) = true

namespace Smeared

variable {v u : BitVec 64} {n : Nat}

theorem refl (v : BitVec 64) : Smeared v v 1 := by
  intro i
  constructor
  · exact fun set => ⟨0, Nat.one_pos, set⟩
  · rintro ⟨j, few, set⟩
    obtain rfl : j = 0 := by omega
    exact set

theorem msb (smeared : Smeared v u n) (positive : v.msb = false) : u.msb = false := by
  rw [BitVec.msb_eq_getLsbD_last] at positive ⊢
  cases set : u.getLsbD (64 - 1) with
  | false => rfl
  | true =>
    obtain ⟨j, -, above⟩ := (smeared (64 - 1)).mp set
    cases j with
    | zero => exact absurd above (by simpa using positive)
    | succ j =>
      rw [BitVec.getLsbD_of_ge _ _ (by omega)] at above
      cases above

/-- One step doubles the reach. -/
theorem double (smeared : Smeared v u n) (positive : v.msb = false) : Smeared v (orShifted u n) (n + n) := by
  have sign := smeared.msb positive
  have shifted : ∀ i, (u.sshiftRight n).getLsbD i = u.getLsbD (n + i) := by
    intro i
    rw [BitVec.sshiftRight_eq_of_msb_false sign, BitVec.getLsbD_ushiftRight]
  intro i
  rw [orShifted, BitVec.getLsbD_or, Bool.or_eq_true, shifted, smeared i, smeared (n + i)]
  constructor
  · rintro (⟨j, few, set⟩ | ⟨j, few, set⟩)
    · exact ⟨j, by omega, set⟩
    · exact ⟨n + j, by omega, by rwa [← Nat.add_assoc, Nat.add_comm i n]⟩
  · rintro ⟨j, few, set⟩
    by_cases near : j < n
    · exact .inl ⟨j, near, set⟩
    · exact .inr ⟨j - n, by omega, by rwa [show n + i + (j - n) = i + j by omega]⟩

end Smeared

/-- What is there before the last step. -/
theorem nextPowerOf2_smeared {v : BitVec 64} (positive : (v - 1).msb = false) :
    ∃ u, Smeared (v - 1) u 32 ∧ nextPowerOf2 v = u + 1 :=
  ⟨_, (((((Smeared.refl (v - 1)).double positive).double positive).double positive).double positive).double positive,
    rfl⟩

/-! ## The next power of two -/

/-- `r` is the least power of two that is no less than `n`. -/
def LeastPowerOf2 (n r : Nat) : Prop := (∃ k, r = 2 ^ k) ∧ n ≤ r ∧ ∀ k, n ≤ 2 ^ k → r ≤ 2 ^ k

/-- Above a number with its top bit at `p` that is 2^(p+1). -/
theorem leastPowerOf2_iff {m p r : Nat} (least : 2 ^ p ≤ m) (most : m < 2 ^ (p + 1)) :
    LeastPowerOf2 (m + 1) r ↔ r = 2 ^ (p + 1) := by
  constructor
  · rintro ⟨⟨k, rfl⟩, above, minimal⟩
    have high : p < k := (Nat.pow_lt_pow_iff_right (by decide)).mp (by omega : 2 ^ p < 2 ^ k)
    exact Nat.le_antisymm (minimal (p + 1) most) (Nat.pow_le_pow_right (by decide) high)
  · rintro rfl
    refine ⟨⟨p + 1, rfl⟩, most, fun k above => ?_⟩
    have high : p < k := (Nat.pow_lt_pow_iff_right (by decide)).mp (by omega : 2 ^ p < 2 ^ k)
    exact Nat.pow_le_pow_right (by decide) high

/-- 32 bits that are not all zero. -/
theorem window_iff (m i : Nat) : m / 2 ^ i % 2 ^ 32 ≠ 0 ↔ ∃ j < 32, m.testBit (i + j) = true := by
  have bits : ∀ j, (m / 2 ^ i % 2 ^ 32).testBit j = (decide (j < 32) && m.testBit (i + j)) := by
    intro j
    rw [Nat.testBit_mod_two_pow, Nat.testBit_div_two_pow, Nat.add_comm]
  constructor
  · intro nonzero
    obtain ⟨j, set⟩ := Nat.exists_testBit_of_ne_zero nonzero
    rw [bits, Bool.and_eq_true, decide_eq_true_eq] at set
    exact ⟨j, set⟩
  · rintro ⟨j, inside, set⟩ zero
    have here := bits j
    rw [zero, Nat.zero_testBit, set] at here
    simp [inside] at here

/-- The smeared bits of `m` are its windows of 32 bits that are not all zero. -/
theorem smeared_toNat {m : Nat} {u : BitVec 64} (small : m < 2 ^ 64) (smeared : Smeared (BitVec.ofNat 64 m) u 32)
    (i : Nat) : u.toNat.testBit i = true ↔ m / 2 ^ i % 2 ^ 32 ≠ 0 := by
  have value : ∀ k, (BitVec.ofNat 64 m).getLsbD k = m.testBit k := by
    intro k
    rw [← BitVec.testBit_toNat, BitVec.toNat_ofNat, Nat.mod_eq_of_lt small]
  rw [BitVec.testBit_toNat, smeared i, window_iff]
  simp only [value]

/-- All bits up to the top one are set exactly if no window below it is zero. -/
theorem smeared_full_iff {m p : Nat} {u : BitVec 64} (small : m < 2 ^ 64) (smeared : Smeared (BitVec.ofNat 64 m) u 32)
    (least : 2 ^ p ≤ m) (most : m < 2 ^ (p + 1)) :
    u.toNat = 2 ^ (p + 1) - 1 ↔ ∀ i, 2 ^ i ≤ m → m / 2 ^ i % 2 ^ 32 ≠ 0 := by
  constructor
  · intro full i below
    have low : i < p + 1 := (Nat.pow_lt_pow_iff_right (by decide)).mp (Nat.lt_of_le_of_lt below most)
    rw [← smeared_toNat small smeared, full, Nat.testBit_two_pow_sub_one, decide_eq_true low]
  · intro windows
    refine Nat.eq_of_testBit_eq fun i => ?_
    rw [Nat.testBit_two_pow_sub_one]
    by_cases low : i < p + 1
    · have below : 2 ^ i ≤ m := Nat.le_trans (Nat.pow_le_pow_right (by decide) (Nat.le_of_lt_succ low)) least
      rw [decide_eq_true low, (smeared_toNat small smeared i).mpr (windows i below)]
    · have above : m < 2 ^ i := Nat.lt_of_lt_of_le most (Nat.pow_le_pow_right (by decide) (by omega))
      have clear : ¬ u.toNat.testBit i = true := by
        rw [smeared_toNat small smeared, Nat.div_eq_of_lt above]
        decide
      rw [decide_eq_false low]
      exact Bool.eq_false_iff.mpr clear

/-- **The buffer has the wanted size exactly if the predecessor of the number has
no 32 zeros in a row below its top bit.** -/
theorem nextPowerOf2_least_iff {n : Nat} (positive : 1 ≤ n) (small : n < 2 ^ 62) :
    LeastPowerOf2 n (nextPowerOf2 (BitVec.ofNat 64 n)).toNat ↔ ∀ i, 2 ^ i ≤ n - 1 → (n - 1) / 2 ^ i % 2 ^ 32 ≠ 0 := by
  obtain ⟨m, rfl⟩ : ∃ m, n = m + 1 := ⟨n - 1, by omega⟩
  have pred : BitVec.ofNat 64 (m + 1) - 1 = BitVec.ofNat 64 m := by
    rw [← BitVec.ofNat_add_ofNat]
    exact BitVec.add_sub_cancel _ _
  have sign : (BitVec.ofNat 64 m).msb = false := by
    rw [BitVec.msb_eq_false_iff_two_mul_lt, BitVec.toNat_ofNat]
    omega
  obtain ⟨u, smeared, run⟩ := nextPowerOf2_smeared (v := BitVec.ofNat 64 (m + 1)) (by rw [pred]; exact sign)
  rw [pred] at smeared
  have result : (nextPowerOf2 (BitVec.ofNat 64 (m + 1))).toNat = u.toNat + 1 := by
    have below := BitVec.msb_eq_false_iff_two_mul_lt.mp (smeared.msb sign)
    have one : (1 : BitVec 64).toNat = 1 := rfl
    rw [run, BitVec.toNat_add, one]
    omega
  rw [result, Nat.add_sub_cancel]
  rcases Nat.eq_zero_or_pos m with rfl | some
  · have zero : u.toNat = 0 := by
      refine Nat.eq_of_testBit_eq fun i => ?_
      have clear : ¬ u.toNat.testBit i = true := by
        rw [smeared_toNat (by decide) smeared, Nat.zero_div]
        decide
      rw [Nat.zero_testBit]
      exact Bool.eq_false_iff.mpr clear
    rw [zero]
    constructor
    · intro _ i below
      exact absurd below (Nat.not_le.mpr (Nat.two_pow_pos i))
    · exact fun _ => ⟨⟨0, rfl⟩, Nat.le_refl 1, fun k above => above⟩
  · have least := Nat.log2_self_le (Nat.ne_of_gt some)
    have most : m < 2 ^ (m.log2 + 1) := Nat.lt_log2_self
    rw [leastPowerOf2_iff least most, ← smeared_full_iff (by omega) smeared least most]
    have := Nat.two_pow_pos (m.log2 + 1)
    omega

/-- A file of 5 bytes gets 8. -/
theorem nextPowerOf2_five : LeastPowerOf2 5 (nextPowerOf2 5).toNat := by
  refine (nextPowerOf2_least_iff (n := 5) (by decide) (by decide)).mpr fun i below => ?_
  have low : i < 3 := (Nat.pow_lt_pow_iff_right (by decide)).mp (Nat.lt_of_le_of_lt below (by decide : 5 - 1 < 2 ^ 3))
  obtain rfl | rfl | rfl : i = 0 ∨ i = 1 ∨ i = 2 := by omega
  · decide
  · decide
  · decide

/-- A file of 2³² + 1 bytes gets 2³³ - 1. -/
theorem nextPowerOf2_large : ¬ LeastPowerOf2 (2 ^ 32 + 1) (nextPowerOf2 (BitVec.ofNat 64 (2 ^ 32 + 1))).toNat := by
  have value : (nextPowerOf2 (BitVec.ofNat 64 (2 ^ 32 + 1))).toNat = 2 ^ 33 - 1 := by decide
  rintro ⟨⟨k, power⟩, -, -⟩
  rw [value] at power
  rcases Nat.lt_or_ge k 33 with low | high
  · have := Nat.pow_le_pow_right (show 0 < 2 by decide) (Nat.le_of_lt_succ low)
    omega
  · have := Nat.pow_le_pow_right (show 0 < 2 by decide) high
    omega

end OpenDelta.Server
