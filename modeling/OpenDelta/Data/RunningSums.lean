import Mathlib.Algebra.Ring.Basic
import Mathlib.Algebra.BigOperators.Group.List.Basic
import Mathlib.Tactic.LinearCombination
import Mathlib.Tactic.Ring

/-!
# Running sums

A checksum of two parts: the sum of some values, and the sum of the sums on the
way. Two lists of one length that differ in two places have the same sums only if the
differences cancel, and cancel again when they are weighted with the distance
(`sums_eq_two`).
-/

namespace OpenDelta

variable {α R : Type} [CommRing R] (f : α → R)

/-- The sum and the sum of the sums, from those before. -/
def sums (s : R × R) (xs : List α) : R × R := xs.foldl (fun s x => (s.1 + f x, s.2 + (s.1 + f x))) s

/-- Each value as often as there are values from it on. -/
def weighted : List α → R
  | [] => 0
  | x :: xs => (xs.length + 1) * f x + weighted xs

variable {f}

theorem sums_append (s : R × R) (xs ys : List α) : sums f s (xs ++ ys) = sums f (sums f s xs) ys := List.foldl_append

theorem sums_eq (s : R × R) (xs : List α) :
    sums f s xs = (s.1 + (xs.map f).sum, s.2 + xs.length * s.1 + weighted f xs) := by
  induction xs generalizing s with
  | nil => simp [sums, weighted]
  | cons x xs ih =>
    have step : sums f s (x :: xs) = sums f (s.1 + f x, s.2 + (s.1 + f x)) xs := rfl
    rw [step, ih, List.map_cons, List.sum_cons, weighted, List.length_cons]
    push_cast
    refine Prod.ext ?_ ?_ <;> dsimp only <;> ring

theorem weighted_append (xs ys : List α) :
    weighted f (xs ++ ys) = weighted f xs + ys.length * (xs.map f).sum + weighted f ys := by
  induction xs with
  | nil => simp [weighted]
  | cons x xs ih =>
    rw [List.cons_append, weighted, weighted, ih, List.length_append, List.map_cons, List.sum_cons]
    push_cast
    ring

/-- One place at which lists may differ. -/
theorem sums_eq_one {s : R × R} {before after : List α} {x x' : α}
    (same : sums f s (before ++ x :: after) = sums f s (before ++ x' :: after)) : f x = f x' := by
  rw [sums_eq, sums_eq, Prod.mk.injEq] at same
  have plain := same.1
  simp only [List.map_append, List.map_cons, List.sum_append, List.sum_cons] at plain
  linear_combination plain

/-- Two places at which lists may differ. -/
theorem sums_eq_two {s : R × R} {before between after : List α} {x x' y y' : α}
    (same : sums f s (before ++ x :: (between ++ y :: after)) = sums f s (before ++ x' :: (between ++ y' :: after))) :
    f x - f x' = f y' - f y ∧ (between.length + 1) * (f x - f x') = 0 := by
  rw [sums_eq, sums_eq, Prod.mk.injEq] at same
  obtain ⟨plain, heavy⟩ := same
  simp only [List.map_append, List.map_cons, List.sum_append, List.sum_cons] at plain
  simp only [weighted_append, weighted, List.length_append, List.length_cons] at heavy
  push_cast at heavy
  have first : f x - f x' = f y' - f y := by linear_combination plain
  refine ⟨first, ?_⟩
  linear_combination heavy - (after.length + 1) * plain

end OpenDelta
