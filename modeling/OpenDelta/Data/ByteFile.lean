import Mathlib.Data.List.Basic

/-!
# The contents of a regular file

A file is its list of bytes. `slice` is what a positioned read delivers: the
bytes from an offset on, fewer than asked for at the end of the file. `pwrite`
is a positioned write: a gap before the offset reads as zeros, and writing
nothing changes nothing. Writes that continue one another are one write of the
concatenation, and a write at the end appends; a writer that only moves
forward is therefore described by what it appended (`pwrite_append`).
-/

namespace OpenDelta

abbrev Bytes := List UInt8

namespace ByteFile

/-- Up to `n` bytes of `f` from offset `off` on. -/
def slice (f : Bytes) (off n : Nat) : Bytes := (f.drop off).take n

/-- `f` after writing `data` at offset `off`. -/
def pwrite (f : Bytes) (off : Nat) (data : Bytes) : Bytes :=
  if data = [] then f
  else f.take off ++ List.replicate (off - f.length) 0 ++ data ++ f.drop (off + data.length)

@[simp] theorem slice_length (f : Bytes) (off n : Nat) :
    (slice f off n).length = min n (f.length - off) := by
  simp [slice]

@[simp] theorem slice_zero (f : Bytes) (off : Nat) : slice f off 0 = [] := by
  simp [slice]

/-- A slice of a file whose tail starts with `a` is `a`. -/
theorem slice_at {f a g : Bytes} {off n : Nat} (tail : f.drop off = a ++ g)
    (len : a.length = n) : slice f off n = a := by
  rw [slice, tail, ← len, List.take_left]

theorem slice_append_left {f g : Bytes} {off n : Nat} (inside : off + n ≤ f.length) :
    slice (f ++ g) off n = slice f off n := by
  unfold slice
  rw [List.drop_append_of_le_length (by omega), List.take_append_of_le_length]
  rw [List.length_drop]
  omega

/-- Two adjacent slices are one. -/
theorem slice_add (f : Bytes) (off m n : Nat) :
    slice f off m ++ slice f (off + m) n = slice f off (m + n) := by
  simp only [slice, List.take_add, List.drop_drop]

@[simp] theorem pwrite_nil (f : Bytes) (off : Nat) : pwrite f off [] = f := by
  simp [pwrite]

/-- A write at the end of the file appends. -/
theorem pwrite_append {f : Bytes} {off : Nat} (here : f.length = off) (data : Bytes) :
    pwrite f off data = f ++ data := by
  by_cases none : data = []
  · simp [none]
  · simp [pwrite, none, ← here]

/-- A write inside the file keeps its length. -/
theorem pwrite_length {f data : Bytes} {off : Nat} (inside : off + data.length ≤ f.length) :
    (pwrite f off data).length = f.length := by
  by_cases none : data = []
  · simp [none]
  · simp only [pwrite, none, if_false, List.length_append, List.length_take, List.length_replicate,
      List.length_drop]
    omega

/-- A write never shortens a file. -/
theorem le_pwrite_length (f data : Bytes) (off : Nat) : f.length ≤ (pwrite f off data).length := by
  by_cases none : data = []
  · simp [none]
  · simp only [pwrite, none, if_false, List.length_append, List.length_take, List.length_replicate,
      List.length_drop]
    omega

/-- A file ends at its old end or at the end of the write. -/
theorem pwrite_length_le (f data : Bytes) (off : Nat) :
    (pwrite f off data).length ≤ max f.length (off + data.length) := by
  by_cases none : data = []
  · rw [none, pwrite_nil]
    exact Nat.le_max_left ..
  · simp only [pwrite, none, if_false, List.length_append, List.length_take, List.length_replicate,
      List.length_drop]
    omega

/-- A write leaves what lies behind it alone. -/
theorem pwrite_drop {f data : Bytes} {off n : Nat}
    (behind : off + data.length ≤ n) : (pwrite f off data).drop n = f.drop n := by
  by_cases none : data = []
  · simp [none]
  · have front : (f.take off ++ List.replicate (off - f.length) 0 ++ data).length = off + data.length := by
      simp only [List.length_append, List.length_take, List.length_replicate]
      omega
    obtain ⟨k, rfl⟩ := Nat.exists_eq_add_of_le behind
    rw [pwrite, if_neg none, ← front, List.drop_length_add_append, List.drop_drop, front]

/-- From the place of a write on, the file is what was written and what lay behind. -/
theorem pwrite_drop_here {f : Bytes} {off : Nat} (inside : off ≤ f.length) (data : Bytes) :
    (pwrite f off data).drop off = data ++ f.drop (off + data.length) := by
  by_cases none : data = []
  · simp [none]
  · have gap : off - f.length = 0 := by omega
    have front : (f.take off).length = off := by simp [inside]
    rw [pwrite, if_neg none, gap, List.replicate_zero, List.append_nil, List.append_assoc]
    exact List.drop_left' front

/-- Writing extends the part of the file already written. -/
theorem pwrite_take {f data : Bytes} {off : Nat} (inside : off + data.length ≤ f.length) :
    (pwrite f off data).take (off + data.length) = f.take off ++ data := by
  by_cases none : data = []
  · simp [none]
  · have gap : off - f.length = 0 := by omega
    have front : (f.take off ++ data).length = off + data.length := by
      simp only [List.length_append, List.length_take]
      omega
    rw [pwrite, if_neg none, gap, List.replicate_zero, List.append_nil, ← front, List.take_left]

/-- A file reaches at least to the end of what has been written. -/
theorem pwrite_reaches {f data : Bytes} {off : Nat} (some : data ≠ []) :
    off + data.length ≤ (pwrite f off data).length := by
  rw [pwrite, if_neg some]
  simp only [List.length_append, List.length_take, List.length_replicate]
  omega

/-- Reading inside what has been written. -/
theorem pwrite_slice_here {f data : Bytes} {off i n : Nat} (inside : i + n ≤ data.length) :
    slice (pwrite f off data) (off + i) n = slice data i n := by
  by_cases none : data = []
  · subst none
    obtain ⟨rfl, rfl⟩ : i = 0 ∧ n = 0 := by
      rw [List.length_nil] at inside
      omega
    simp
  · have front : (f.take off ++ List.replicate (off - f.length) 0).length = off := by
      rw [List.length_append, List.length_take, List.length_replicate]
      omega
    rw [pwrite, if_neg none, slice, ← List.drop_drop, List.append_assoc, List.drop_left' front,
      List.drop_append_of_le_length (by omega), List.take_append_of_le_length (by rw [List.length_drop]; omega), slice]

/-- Reading in front of what has been written. -/
theorem pwrite_slice_before {f data : Bytes} {off p n : Nat} (before : p + n ≤ off) (inside : p + n ≤ f.length) :
    slice (pwrite f off data) p n = slice f p n := by
  by_cases none : data = []
  · rw [none, pwrite_nil]
  · rw [pwrite, if_neg none, List.append_assoc, List.append_assoc,
      slice_append_left (by rw [List.length_take]; omega)]
    simp only [slice, List.drop_take, List.take_take]
    rw [Nat.min_eq_left (by omega)]

/-- A second write right after the first. -/
theorem pwrite_pwrite (f : Bytes) (off : Nat) (a b : Bytes) :
    pwrite (pwrite f off a) (off + a.length) b = pwrite f off (a ++ b) := by
  by_cases noneA : a = []
  · simp [noneA]
  by_cases noneB : b = []
  · simp [noneB]
  have both : a ++ b ≠ [] := by simp [noneA]
  have front : (f.take off ++ List.replicate (off - f.length) 0 ++ a).length = off + a.length := by
    simp only [List.length_append, List.length_take, List.length_replicate]
    omega
  rw [pwrite, if_neg noneB, pwrite, if_neg noneA, pwrite, if_neg both]
  have long : off + a.length -
      (f.take off ++ List.replicate (off - f.length) 0 ++ a ++ f.drop (off + a.length)).length = 0 := by
    rw [List.length_append, front]
    omega
  rw [long, List.replicate_zero, List.append_nil, ← front, List.take_left,
    List.drop_length_add_append, List.drop_drop, front, List.length_append]
  simp only [List.append_assoc, Nat.add_assoc]

end ByteFile

end OpenDelta
