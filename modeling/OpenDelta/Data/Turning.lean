import OpenDelta.Data.Computation

/-!
# Loops that come to an end

A loop takes turns, each of which goes on to another state or is done
(`Turn`). `Comes turn s a` says that the turns from `s` end with `a`. Where every
turn that goes on lowers a measure, the loop is a function (`untilDone`), and it is
the one that `Comes` describes (`comes_iff`).
-/

namespace OpenDelta

variable {σ α : Type} {turn : σ → Turn σ α} {s s' : σ} {a b : α}

/-- The turns from a state end with a value. -/
inductive Comes (turn : σ → Turn σ α) : σ → α → Prop where
  | done {s : σ} {a : α} : turn s = .done a → Comes turn s a
  | again {s s' : σ} {a : α} : turn s = .again s' → Comes turn s' a → Comes turn s a

theorem Comes.of_done (turned : turn s = .done a) : Comes turn s b ↔ b = a := by
  constructor
  · rintro (turned' | ⟨turned', -⟩)
    · rw [turned, Turn.done.injEq] at turned'
      exact turned'.symm
    · rw [turned] at turned'
      cases turned'
  · rintro rfl
    exact .done turned

theorem Comes.of_again (turned : turn s = .again s') : Comes turn s a ↔ Comes turn s' a := by
  constructor
  · rintro (turned' | ⟨turned', comes⟩)
    · rw [turned] at turned'
      cases turned'
    · rw [turned, Turn.again.injEq] at turned'
      exact turned' ▸ comes
  · exact .again turned

theorem Comes.unique (first : Comes turn s a) (second : Comes turn s b) : a = b := by
  induction first with
  | done turned => exact ((Comes.of_done turned).mp second).symm
  | again turned _ ih => exact ih ((Comes.of_again turned).mp second)

/-- What holds at first and in every further turn holds of the value. -/
theorem Comes.invariant {Inv : σ → Prop} {Post : α → Prop} (comes : Comes turn s a) (first : Inv s)
    (kept : ∀ s, Inv s → (turn s).Holds Inv Post) : Post a := by
  induction comes with
  | done turned =>
    have held := kept _ first
    rw [turned] at held
    exact held
  | again turned _ ih =>
    have held := kept _ first
    rw [turned] at held
    exact ih held

/-- Some turns lead from a state to another one. -/
inductive Reaches (turn : σ → Turn σ α) : σ → σ → Prop where
  | refl (s : σ) : Reaches turn s s
  | step {s s' s'' : σ} : turn s = .again s' → Reaches turn s' s'' → Reaches turn s s''

theorem Reaches.trans {s'' : σ} (first : Reaches turn s s') (second : Reaches turn s' s'') : Reaches turn s s'' := by
  induction first with
  | refl => exact second
  | step turned _ ih => exact .step turned (ih second)

theorem Comes.of_reaches (reaches : Reaches turn s s') (comes : Comes turn s' a) : Comes turn s a := by
  induction reaches with
  | refl => exact comes
  | step turned _ ih => exact .again turned (ih comes)

/-- The turns to the end, by a measure that they lower. -/
def untilDone (turn : σ → Turn σ α) (rank : σ → Nat) (lowers : ∀ {s s'}, turn s = .again s' → rank s' < rank s)
    (s : σ) : α :=
  match _turned : turn s with
  | .done a => a
  | .again s' => untilDone turn rank lowers s'
termination_by rank s
decreasing_by exact lowers _turned

variable {rank : σ → Nat} {lowers : ∀ {s s'}, turn s = .again s' → rank s' < rank s}

theorem untilDone_done (turned : turn s = .done a) : untilDone turn rank lowers s = a := by
  rw [untilDone]
  split
  · rename_i turned'
    rw [turned, Turn.done.injEq] at turned'
    exact turned'.symm
  · rename_i turned'
    rw [turned] at turned'
    cases turned'

theorem untilDone_again (turned : turn s = .again s') : untilDone turn rank lowers s = untilDone turn rank lowers s' := by
  rw [untilDone]
  split
  · rename_i turned'
    rw [turned] at turned'
    cases turned'
  · rename_i turned'
    rw [turned, Turn.again.injEq] at turned'
    rw [turned']

theorem comes_untilDone (s : σ) : Comes turn s (untilDone turn rank lowers s) := by
  induction count : rank s using Nat.strongRecOn generalizing s with
  | ind n ih =>
    cases turned : turn s with
    | done a =>
      rw [untilDone_done turned]
      exact .done turned
    | again s' =>
      rw [untilDone_again turned]
      exact .again turned (ih _ (count ▸ lowers turned) s' rfl)

theorem comes_iff : Comes turn s a ↔ untilDone turn rank lowers s = a :=
  ⟨fun comes => (comes_untilDone s).unique comes, fun value => value ▸ comes_untilDone s⟩

end OpenDelta
