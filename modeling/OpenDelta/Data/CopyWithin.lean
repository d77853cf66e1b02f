import Mathlib.Data.List.Basic

/-!
# Copies that overlap

A copy within a list that is being written may run into what it has just written: its
values are appended one by one, and each is read after the one before is there.
-/

namespace OpenDelta

variable {α : Type} {out out' : List α}

/-- `size` values from `here` on, one after another, each appended before the next is read. -/
def copyWithin (out : List α) (here : Nat) : Nat → Option (List α)
  | 0 => some out
  | size + 1 => out[here]?.bind fun a => copyWithin (out ++ [a]) (here + 1) size

/-- A copy that starts within the list does not leave it. -/
theorem copyWithin_isSome {here : Nat} (inside : here < out.length) (size : Nat) :
    (copyWithin out here size).isSome := by
  induction size generalizing out here with
  | zero => rfl
  | succ size ih =>
    rw [copyWithin, List.getElem?_eq_getElem inside, Option.bind_some]
    apply ih
    rw [List.length_append, List.length_singleton]
    omega

theorem copyWithin_length {here size : Nat} (copied : copyWithin out here size = some out') :
    out'.length = out.length + size := by
  induction size generalizing out here with
  | zero =>
    cases copied
    omega
  | succ size ih =>
    rw [copyWithin, Option.bind_eq_some_iff] at copied
    obtain ⟨a, -, copied⟩ := copied
    rw [ih copied, List.length_append, List.length_singleton]
    omega

theorem copyWithin_prefix {here size : Nat} (copied : copyWithin out here size = some out') :
    out <+: out' := by
  induction size generalizing out here with
  | zero =>
    cases copied
    exact List.prefix_refl _
  | succ size ih =>
    rw [copyWithin, Option.bind_eq_some_iff] at copied
    obtain ⟨a, -, copied⟩ := copied
    exact (List.prefix_append _ _).trans (ih copied)

/-- Two values again and again. -/
example : copyWithin [1, 2, 3] 1 5 = some [1, 2, 3, 2, 3, 2, 3, 2] := by decide

end OpenDelta
