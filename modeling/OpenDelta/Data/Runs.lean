/-!
# Runs of a system that takes steps

`step s a` is where action `a` leads from state `s`, or `none` where `a` cannot
happen. A run is a list of actions; `Visits` and `Takes` say which states it
comes through and which actions it takes where. What every step keeps, every
visited state has (`Visits.invariant`).
-/

namespace OpenDelta

universe u v

variable {σ : Type u} {α : Type v} (step : σ → α → Option σ)

/-- The run of `actions` from a state comes through another. -/
inductive Visits : σ → List α → σ → Prop where
  | here (s : σ) (actions : List α) : Visits s actions s
  | later {s s' t : σ} {a : α} {actions : List α} : step s a = some s' → Visits s' actions t →
      Visits s (a :: actions) t

/-- The run of `actions` from a state takes an action in a state. -/
inductive Takes : σ → List α → σ → α → Prop where
  | here {s s' : σ} {a : α} (actions : List α) : step s a = some s' → Takes s (a :: actions) s a
  | later {s s' t : σ} {a b : α} {actions : List α} : step s a = some s' → Takes s' actions t b →
      Takes s (a :: actions) t b

variable {step} {s t t' : σ} {a : α} {actions : List α}

namespace Takes

theorem visits (takes : Takes step s actions t a) : Visits step s actions t := by
  induction takes with
  | here actions taken => exact .here _ _
  | later taken _ ih => exact .later taken ih

/-- The action can happen there. -/
theorem taken (takes : Takes step s actions t a) : ∃ t', step t a = some t' := by
  induction takes with
  | here actions taken => exact ⟨_, taken⟩
  | later _ _ ih => exact ih

/-- The state an action leads to is visited. -/
theorem visits_next (takes : Takes step s actions t a) (next : step t a = some t') :
    Visits step s actions t' := by
  induction takes with
  | here actions _ => exact .later next (.here _ _)
  | later taken _ ih => exact .later taken (ih next)

/-- The first action of a run and those behind it. -/
theorem cons_cases {s' : σ} {b : α} (taken : step s a = some s') (takes : Takes step s (a :: actions) t b) :
    (t = s ∧ b = a) ∨ Takes step s' actions t b := by
  cases takes with
  | here _ _ => exact .inl ⟨rfl, rfl⟩
  | later taken' rest =>
    rw [taken, Option.some.injEq] at taken'
    exact .inr (taken' ▸ rest)

end Takes

/-- What the first state has and every action of the run keeps, where `ok` says
how it is taken, holds throughout. -/
theorem Visits.invariant (Inv : σ → Prop) {ok : σ → α → Prop}
    (keeps : ∀ s a s', Inv s → ok s a → step s a = some s' → Inv s')
    (visits : Visits step s actions t) (start : Inv s) (meets : ∀ t a, Takes step s actions t a → ok t a) :
    Inv t := by
  induction visits with
  | here _ _ => exact start
  | later taken _ ih =>
    apply ih
    · exact keeps _ _ _ start (meets _ _ (.here _ taken)) taken
    · intro t a takes
      exact meets t a (.later taken takes)

/-- An invariant of every step. -/
theorem Visits.stable {Inv : σ → Prop} (keeps : ∀ s a s', Inv s → step s a = some s' → Inv s')
    (visits : Visits step s actions t) (start : Inv s) : Inv t :=
  visits.invariant Inv (fun s a s' inv (_ : True) taken => keeps s a s' inv taken) start fun _ _ _ => trivial

end OpenDelta
