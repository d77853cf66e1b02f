import Mathlib.Data.List.Lex
import Mathlib.Order.Fin.Basic
import Mathlib.Tactic.Ring

/-!
# The order of texts and of the numbers in them

Words that end in a smaller letter are ordered as texts the way the words are.
Digits of the same length are ordered as the numbers they write.
-/

namespace OpenDelta.TextOrder

variable {α : Type} [LinearOrder α]

theorem append_lt_append_iff (p xs ys : List α) : p ++ xs < p ++ ys ↔ xs < ys := by
  induction p with
  | nil => rfl
  | cons a p ih => simpa only [List.cons_append, List.cons_lt_cons_iff, lt_irrefl, false_or, true_and] using ih

theorem append_right_lt_iff {c d : List α} (same : c.length = d.length) (zs : List α) :
    c ++ zs < d ++ zs ↔ c < d := by
  induction c generalizing d with
  | nil =>
    obtain rfl := List.eq_nil_of_length_eq_zero same.symm
    simp
  | cons a c ih =>
    obtain ⟨b, d, rfl⟩ := List.exists_cons_of_length_eq_add_one same.symm
    rw [List.cons_append, List.cons_append, List.cons_lt_cons_iff, List.cons_lt_cons_iff, ih (Nat.succ.inj same)]

theorem map_lt_map_iff {β : Type} [LinearOrder β] {f : α → β} (mono : ∀ a b, f a < f b ↔ a < b)
    (inj : ∀ a b, f a = f b ↔ a = b) (xs ys : List α) : xs.map f < ys.map f ↔ xs < ys := by
  induction xs generalizing ys with
  | nil => cases ys <;> simp
  | cons a xs ih =>
    cases ys with
    | nil => simp
    | cons b ys => simp only [List.map_cons, List.cons_lt_cons_iff, mono, inj, ih]

theorem map_eq_map_iff {α β : Type} {f : α → β} (inj : ∀ a b, f a = f b ↔ a = b) (xs ys : List α) :
    xs.map f = ys.map f ↔ xs = ys :=
  (List.map_injective_iff.mpr fun a b => (inj a b).mp).eq_iff

/-- Words before letters that are smaller than theirs. -/
theorem terminated_lt_iff {c d : List α} {s t : α} (xs ys : List α) (left : ∀ x ∈ c, t < x) (right : ∀ x ∈ d, s < x) :
    c ++ s :: xs < d ++ t :: ys ↔ c < d ∨ c = d ∧ s :: xs < t :: ys := by
  induction c generalizing d with
  | nil =>
    cases d with
    | nil => simp
    | cons b d => simp [List.cons_lt_cons_iff, right b List.mem_cons_self]
  | cons a c ih =>
    cases d with
    | nil =>
      have above := left a List.mem_cons_self
      simp [List.cons_lt_cons_iff, above.not_gt, above.ne']
    | cons b d =>
      have later := ih (fun x within => left x (List.mem_cons_of_mem _ within))
        (fun x within => right x (List.mem_cons_of_mem _ within))
      simp only [List.cons_append, List.cons_lt_cons_iff, later, List.cons.injEq]
      tauto

/-- Words with a separator between them. -/
def joined {α : Type} (separator : α) : List (List α) → List α
  | [] => []
  | [c] => c
  | c :: d :: cs => c ++ separator :: joined separator (d :: cs)

theorem flatMap_joined {α β : Type} {f : α → List β} {separator : α} {separator' : β} (kept : f separator = [separator'])
    (v : List (List α)) : (joined separator v).flatMap f = joined separator' (v.map (·.flatMap f)) := by
  induction v with
  | nil => rfl
  | cons c cs ih =>
    cases cs with
    | nil => rfl
    | cons d cs =>
      rw [joined, List.flatMap_append, List.flatMap_cons, ih, kept]
      rfl

/-- Joined words before a letter smaller than the separator, which is smaller
than theirs. -/
theorem joined_lt_iff {separator stop : α} (smaller : stop < separator) {v w : List (List α)} (some_v : v ≠ [])
    (some_w : w ≠ []) (xs ys : List α) (left : ∀ c ∈ v, ∀ x ∈ c, separator < x) (right : ∀ c ∈ w, ∀ x ∈ c, separator < x) :
    joined separator v ++ stop :: xs < joined separator w ++ stop :: ys ↔ v < w ∨ v = w ∧ xs < ys := by
  induction v generalizing w with
  | nil => contradiction
  | cons c cs ih =>
    obtain ⟨d, ds, rfl⟩ := List.exists_cons_of_ne_nil some_w
    have leftHead := left c List.mem_cons_self
    have rightHead := right d List.mem_cons_self
    have leftStop : ∀ x ∈ c, stop < x := fun x within => smaller.trans (leftHead x within)
    have rightStop : ∀ x ∈ d, stop < x := fun x within => smaller.trans (rightHead x within)
    cases cs with
    | nil =>
      cases ds with
      | nil => simp [joined, terminated_lt_iff xs ys leftStop rightStop, List.cons_lt_cons_iff]
      | cons d' ds =>
        have order := terminated_lt_iff xs (joined separator (d' :: ds) ++ stop :: ys) leftHead rightStop
        simpa [joined, List.cons_lt_cons_iff, smaller] using order
    | cons c' cs =>
      cases ds with
      | nil =>
        have order := terminated_lt_iff (joined separator (c' :: cs) ++ stop :: xs) ys leftStop rightHead
        simpa [joined, List.cons_lt_cons_iff, smaller.not_gt, smaller.ne'] using order
      | cons d' ds =>
        have later := ih (List.cons_ne_nil _ _) (List.cons_ne_nil d' ds)
          (fun x within => left x (List.mem_cons_of_mem _ within))
          (fun x within => right x (List.mem_cons_of_mem _ within))
        have order := terminated_lt_iff (joined separator (c' :: cs) ++ stop :: xs)
          (joined separator (d' :: ds) ++ stop :: ys) leftHead rightHead
        simp only [joined, List.append_assoc, List.cons_append, order]
        simp only [List.cons_lt_cons_iff (a := c), List.cons_lt_cons_iff (a := separator), lt_irrefl, false_or, true_and,
          later, List.cons.injEq]
        tauto

/-! ## Digits -/

variable {b : Nat}

/-- The number that digits write, the highest first. -/
def value (digits : List (Fin b)) : Nat := digits.foldl (fun n (d : Fin b) => b * n + d) 0

theorem foldl_value (n : Nat) (digits : List (Fin b)) :
    digits.foldl (fun n (d : Fin b) => b * n + d) n = n * b ^ digits.length + value digits := by
  induction digits generalizing n with
  | nil => simp [value]
  | cons d ds ih =>
    have first : value (d :: ds) = (b * 0 + d) * b ^ ds.length + value ds := ih (b * 0 + d)
    rw [List.foldl_cons, ih, first, List.length_cons]
    ring

theorem value_cons (d : Fin b) (ds : List (Fin b)) : value (d :: ds) = d * b ^ ds.length + value ds := by
  rw [value, List.foldl_cons, foldl_value, Nat.mul_zero, Nat.zero_add]

theorem value_lt (digits : List (Fin b)) : value digits < b ^ digits.length := by
  induction digits with
  | nil => simp [value]
  | cons d ds ih =>
    rw [value_cons, List.length_cons]
    calc d * b ^ ds.length + value ds < d * b ^ ds.length + b ^ ds.length := Nat.add_lt_add_left ih _
      _ = (d + 1) * b ^ ds.length := by ring
      _ ≤ b * b ^ ds.length := Nat.mul_le_mul_right _ d.isLt
      _ = b ^ (ds.length + 1) := by ring

/-- Numbers with a higher first digit are higher. -/
theorem value_lt_of_head {d e : Fin b} {ds es : List (Fin b)} (higher : d < e) (same : ds.length = es.length) :
    value (d :: ds) < value (e :: es) := by
  rw [value_cons, value_cons]
  have below := value_lt ds
  have step : (d + 1) * b ^ ds.length ≤ e * b ^ ds.length := Nat.mul_le_mul_right _ higher
  rw [Nat.add_mul, Nat.one_mul] at step
  rw [← same]
  omega

/-- Numbers of equally many digits are ordered as their digits. -/
theorem lt_iff_value_lt {c d : List (Fin b)} (same : c.length = d.length) : c < d ↔ value c < value d := by
  induction c generalizing d with
  | nil =>
    obtain rfl := List.eq_nil_of_length_eq_zero same.symm
    simp
  | cons a c ih =>
    obtain ⟨e, d, rfl⟩ := List.exists_cons_of_length_eq_add_one same.symm
    have tails : c.length = d.length := Nat.succ.inj same
    rw [List.cons_lt_cons_iff]
    rcases lt_trichotomy a e with lower | equal | higher
    · simp [lower, value_lt_of_head lower tails]
    · simp [equal, ih tails, value_cons, tails]
    · have above := value_lt_of_head higher tails.symm
      simp [higher.not_gt, higher.ne', above.not_gt]

theorem eq_iff_value_eq {c d : List (Fin b)} (same : c.length = d.length) : c = d ↔ value c = value d := by
  constructor
  · rintro rfl
    rfl
  · intro equal
    rcases lt_trichotomy c d with lower | eq | higher
    · exact absurd equal ((lt_iff_value_lt same).mp lower).ne
    · exact eq
    · exact absurd equal ((lt_iff_value_lt same.symm).mp higher).ne'

end OpenDelta.TextOrder
