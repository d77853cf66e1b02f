import Mathlib.Order.Preorder.Finite
import Mathlib.Data.Set.Finite.Lattice

/-!
# Walks along a partial successor

`next a` is where a step from `a` leads, or `none` where there is none. A walk
that comes back to where it was goes on for ever; when the steps lead to finitely
many places, it is the only way to do so (`walkEnds_iff`).
-/

namespace OpenDelta

universe u

variable {α : Type u} (next : α → Option α)

/-- Where `n` steps lead. -/
def walk : Nat → α → Option α
  | 0, a => some a
  | n + 1, a => (next a).bind (walk n)

/-- The walk from `a` ends. -/
def WalkEnds (a : α) : Prop := ∃ n, walk next n a = none

/-- The walk from `a` comes to `b`. -/
def WalksTo (a b : α) : Prop := ∃ n, walk next n a = some b

/-- The walk from `b` comes back to it. -/
def Returns (b : α) : Prop := ∃ n, walk next (n + 1) b = some b

variable {next}

theorem walk_add (m n : Nat) (a : α) : walk next (m + n) a = (walk next m a).bind (walk next n) := by
  induction m generalizing a with
  | zero => rw [Nat.zero_add, walk, Option.bind_some]
  | succ m ih =>
    rw [Nat.succ_add, walk, walk, Option.bind_assoc]
    exact congrArg (Option.bind (next a)) (funext ih)

/-- A walk that has ended stays so. -/
theorem walk_none_of_le {m n : Nat} {a : α} (le : m ≤ n) (ended : walk next m a = none) : walk next n a = none := by
  obtain ⟨k, rfl⟩ := Nat.exists_eq_add_of_le le
  rw [walk_add, ended, Option.bind_none]

/-- A place that is returned to is returned to again and again. -/
theorem walk_mul {period : Nat} {b : α} (back : walk next period b = some b) (k : Nat) :
    walk next (k * period) b = some b := by
  induction k with
  | zero => rw [Nat.zero_mul, walk]
  | succ k ih => rw [Nat.succ_mul, walk_add, ih, Option.bind_some, back]

/-- A walk that comes to such a place does not end. -/
theorem not_walkEnds {a b : α} (reached : WalksTo next a b) (back : Returns next b) : ¬ WalkEnds next a := by
  rintro ⟨n, ended⟩
  obtain ⟨m, reached⟩ := reached
  obtain ⟨p, back⟩ := back
  have later : walk next (m + n * (p + 1)) a = some b := by
    rw [walk_add, reached, Option.bind_some, walk_mul back]
  have le : n ≤ m + n * (p + 1) := by
    rw [Nat.mul_succ]
    omega
  rw [walk_none_of_le le ended] at later
  cases later

/-- **A walk ends** exactly if it comes to no place that it returns to, where the
steps lead to finitely many places. -/
theorem walkEnds_iff {a : α} (finite : {b | ∃ a, next a = some b}.Finite) :
    WalkEnds next a ↔ ∀ b, WalksTo next a b → ¬ Returns next b := by
  constructor
  · exact fun ends b reached back => not_walkEnds reached back ends
  · intro straight
    by_contra endless
    have goes : ∀ n, ∃ b, walk next n a = some b :=
      fun n => Option.ne_none_iff_exists'.mp fun ended => endless ⟨n, ended⟩
    choose place arrives using goes
    have step : ∀ n, next (place n) = some (place (n + 1)) := by
      intro n
      have both : walk next (n + 1) a = (walk next n a).bind (walk next 1) := walk_add n 1 a
      rw [arrives, arrives, Option.bind_some, walk, show walk next 0 = some from rfl, Option.bind_fun_some] at both
      exact both.symm
    have inside : ∀ n, place (n + 1) ∈ {b | ∃ a, next a = some b} := fun n => ⟨place n, step n⟩
    -- two places behind a step are the same
    obtain ⟨i, j, before, same⟩ := Set.Finite.exists_lt_map_eq_of_forall_mem inside finite
    have onward : walk next (i + 1 + (j - i)) a = (walk next (i + 1) a).bind (walk next (j - i)) := walk_add ..
    rw [arrives, arrives, Option.bind_some, show i + 1 + (j - i) = j + 1 by omega, ← same] at onward
    refine straight (place (i + 1)) ⟨i + 1, arrives _⟩ ⟨j - i - 1, ?_⟩
    rw [show j - i - 1 + 1 = j - i by omega]
    exact onward.symm

end OpenDelta
