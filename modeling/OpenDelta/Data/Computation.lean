import Mathlib.Data.List.Infix
import Mathlib.Order.Basic

/-!
# Computations that make calls

A computation calls the outside and goes on from the answers. How far its loops
may turn is bounded by fuel; a run that comes to an end within its fuel is the
same with more (`Extends`), which every computation carries as a proof. The
answer to a call may depend on how many calls came before it.

The rules below say when a computation fails exactly because of one of its calls
(`Careful`), when it comes to an end (`Live`), and what both together say about
calls that must not go unnoticed (`detects_iff`).
-/

namespace OpenDelta

/-- Why a computation gives no value. -/
inductive Stop where
  | failed
  | undefined
  | unfinished
  deriving DecidableEq, Repr

/-- A result, and the calls made for it. -/
abbrev Result (κ α : Type) := Except Stop α × List κ

namespace Result

variable {κ α β : Type}

theorem error_ne {stop stop' : Stop} (ne : (.error stop : Except Stop β) ≠ .error stop') :
    (.error stop : Except Stop α) ≠ .error stop' := by
  rintro ⟨⟩
  exact ne rfl

/-- A result after more fuel: the same, or what an unfinished one goes on to. -/
def Extends (r r' : Result κ α) : Prop := (r.1 ≠ .error .unfinished → r' = r) ∧ r.2 <+: r'.2

theorem Extends.refl (r : Result κ α) : r.Extends r := ⟨fun _ => rfl, List.prefix_rfl⟩

/-- One result after another. -/
def chain (first : Result κ α) (rest : α → List κ → Result κ β) : Result κ β :=
  match first with
  | (.ok a, calls) => ((rest a calls).1, calls ++ (rest a calls).2)
  | (.error stop, calls) => (.error stop, calls)

@[simp] theorem chain_ok (a : α) (calls : List κ) (rest : α → List κ → Result κ β) :
    chain (.ok a, calls) rest = ((rest a calls).1, calls ++ (rest a calls).2) := rfl

@[simp] theorem chain_error (stop : Stop) (calls : List κ) (rest : α → List κ → Result κ β) :
    chain (.error stop, calls) rest = (.error stop, calls) := rfl

theorem calls_le_chain (first : Result κ α) (rest : α → List κ → Result κ β) : first.2 <+: (chain first rest).2 := by
  obtain ⟨_ | _, calls⟩ := first
  · exact List.prefix_rfl
  · exact List.prefix_append ..

theorem Extends.chain {first first' : Result κ α} {rest rest' : α → List κ → Result κ β}
    (more : first.Extends first') (moreRest : ∀ a calls, (rest a calls).Extends (rest' a calls)) :
    (first.chain rest).Extends (first'.chain rest') := by
  obtain ⟨same, further⟩ := more
  obtain ⟨result, calls⟩ := first
  cases result with
  | ok a =>
    rw [same nofun]
    constructor
    · intro ended
      rw [chain_ok, chain_ok, (moreRest a calls).1 ended]
    · exact (List.prefix_append_right_inj calls).mpr (moreRest a calls).2
  | error stop =>
    constructor
    · intro ended
      rw [same (error_ne ended)]
      rfl
    · exact further.trans (calls_le_chain first' rest')

end Result

open Result

/-- A computation, from the fuel of its loops and the number of calls made before. -/
structure Computation (κ α : Type) where
  run : Nat → Nat → Result κ α
  more : ∀ {fuel fuel' : Nat} (n : Nat), fuel ≤ fuel' → (run fuel n).Extends (run fuel' n)

/-- What a turn of a loop does. -/
inductive Turn (σ α : Type) where
  | again (s : σ)
  | done (a : α)

/-- What holds when the loop goes on, or else of its value. -/
def Turn.Holds {σ α : Type} (Inv : σ → Prop) (Post : α → Prop) : Turn σ α → Prop
  | again s => Inv s
  | done a => Post a

namespace Computation

variable {κ α β σ : Type}

def ret (a : α) : Computation κ α where
  run _ _ := (.ok a, [])
  more _ _ := .refl _

/-- The computation gives up. -/
def giveUp : Computation κ α where
  run _ _ := (.error .failed, [])
  more _ _ := .refl _

/-- What follows has no defined meaning. -/
def undefined : Computation κ α where
  run _ _ := (.error .undefined, [])
  more _ _ := .refl _

/-- What a computation makes of an answer. -/
def answered : Option α → Except Stop α
  | some a => .ok a
  | none => .error .failed

/-- A call; without an answer to go on with, the computation gives up. -/
def attempt (answer : Nat → Option α × κ) : Computation κ α where
  run _ n := (answered (answer n).1, [(answer n).2])
  more _ _ := .refl _

/-- A call whose answer the computation takes as it is. -/
def call (answer : Nat → α × κ) : Computation κ α := attempt fun n => (some (answer n).1, (answer n).2)

def andThen (m : Computation κ α) (k : α → Computation κ β) : Computation κ β where
  run fuel n := (m.run fuel n).chain fun a calls => (k a).run fuel (n + calls.length)
  more n le := (m.more n le).chain fun a _ => (k a).more _ le

/-- At most `count` turns of a loop. -/
def turns (body : σ → Computation κ (Turn σ α)) (fuel : Nat) : Nat → σ → Nat → Result κ α
  | 0, _, _ => (.error .unfinished, [])
  | count + 1, s, n =>
    ((body s).run fuel n).chain fun turn calls =>
      match turn with
      | .done a => (.ok a, [])
      | .again s' => turns body fuel count s' (n + calls.length)

theorem turns_extends (body : σ → Computation κ (Turn σ α)) {fuel fuel' : Nat} (le : fuel ≤ fuel') :
    ∀ {count count' : Nat}, count ≤ count' → ∀ s n,
      (turns body fuel count s n).Extends (turns body fuel' count' s n)
  | 0, _, _, _, _ => ⟨fun ended => absurd rfl ended, List.nil_prefix⟩
  | count + 1, count' + 1, leCount, s, n => by
    refine ((body s).more n le).chain fun turn calls => ?_
    cases turn with
    | done a => exact .refl _
    | again s' => exact turns_extends body le (Nat.le_of_succ_le_succ leCount) s' _

/-- Turns until one is done. -/
def loop (body : σ → Computation κ (Turn σ α)) (s : σ) : Computation κ α where
  run fuel n := turns body fuel fuel s n
  more n le := turns_extends body le le s n

instance : Monad (Computation κ) where
  pure := ret
  bind := andThen

theorem bind_run (m : Computation κ α) (k : α → Computation κ β) (fuel n : Nat) :
    (m >>= k).run fuel n = (m.run fuel n).chain fun a calls => (k a).run fuel (n + calls.length) := rfl

@[simp] theorem call_run (answer : Nat → α × κ) (fuel n : Nat) :
    (call answer).run fuel n = (.ok (answer n).1, [(answer n).2]) := rfl

@[simp] theorem giveUp_run (fuel n : Nat) : (giveUp : Computation κ α).run fuel n = (.error .failed, []) := rfl

/-! ## Returned values -/

/-- The computation comes to a value with these calls. -/
def Returns (m : Computation κ α) (n : Nat) (a : α) (calls : List κ) : Prop :=
  ∃ fuel, m.run fuel n = (.ok a, calls)

theorem Returns.mono {m : Computation κ α} {n : Nat} {a : α} {calls : List κ} {fuel fuel' : Nat}
    (run : m.run fuel n = (.ok a, calls)) (le : fuel ≤ fuel') : m.run fuel' n = (.ok a, calls) := by
  rw [(m.more n le).1, run]
  rw [run]
  nofun

@[simp] theorem returns_pure {n : Nat} {a b : α} {calls : List κ} :
    Returns (pure a : Computation κ α) n b calls ↔ a = b ∧ calls = [] := by
  constructor
  · rintro ⟨fuel, run⟩
    cases run
    exact ⟨rfl, rfl⟩
  · rintro ⟨rfl, rfl⟩
    exact ⟨0, rfl⟩

@[simp] theorem not_returns_giveUp {n : Nat} {a : α} {calls : List κ} :
    ¬Returns (giveUp : Computation κ α) n a calls := by
  rintro ⟨fuel, run⟩
  cases run

@[simp] theorem not_returns_undefined {n : Nat} {a : α} {calls : List κ} :
    ¬Returns (undefined : Computation κ α) n a calls := by
  rintro ⟨fuel, run⟩
  cases run

@[simp] theorem returns_attempt {answer : Nat → Option α × κ} {n : Nat} {a : α} {calls : List κ} :
    Returns (attempt answer) n a calls ↔ (answer n).1 = some a ∧ calls = [(answer n).2] := by
  constructor
  · rintro ⟨fuel, run⟩
    obtain ⟨value, made⟩ := Prod.mk.inj run
    cases given : (answer n).1 with
    | none =>
      rw [given] at value
      cases value
    | some b =>
      rw [given] at value
      cases value
      exact ⟨rfl, made.symm⟩
  · rintro ⟨given, rfl⟩
    exact ⟨0, Prod.ext (congrArg answered given) rfl⟩

theorem returns_bind {m : Computation κ α} {k : α → Computation κ β} {n : Nat} {b : β} {calls : List κ} :
    Returns (m >>= k) n b calls ↔
      ∃ a first rest, Returns m n a first ∧ Returns (k a) (n + first.length) b rest ∧ calls = first ++ rest := by
  constructor
  · rintro ⟨fuel, run⟩
    rw [bind_run] at run
    cases ran : m.run fuel n with
    | mk result first =>
      rw [ran] at run
      cases result with
      | error stop => cases run
      | ok a =>
        obtain ⟨value, made⟩ := Prod.mk.inj run
        exact ⟨a, first, _, ⟨fuel, ran⟩, ⟨fuel, Prod.ext value rfl⟩, made.symm⟩
  · rintro ⟨a, first, rest, ⟨fuel, run⟩, ⟨fuel', run'⟩, rfl⟩
    refine ⟨max fuel fuel', ?_⟩
    rw [bind_run, Returns.mono run (Nat.le_max_left ..), chain_ok, Returns.mono run' (Nat.le_max_right ..)]

/-! ## Coming to an end -/

/-- The computation ends, in one way or another. -/
def Finishes (m : Computation κ α) (n : Nat) : Prop := ∃ fuel, (m.run fuel n).1 ≠ .error .unfinished

theorem Finishes.mono {m : Computation κ α} {n fuel fuel' : Nat} (ended : (m.run fuel n).1 ≠ .error .unfinished)
    (le : fuel ≤ fuel') : m.run fuel' n = m.run fuel n := (m.more n le).1 ended

variable (bad : κ → Prop)

/-- No call of the computation is bad. -/
def Quiet (m : Computation κ α) (n : Nat) : Prop := ∀ fuel, ∀ c ∈ (m.run fuel n).2, ¬bad c

/-- Without bad calls the computation comes to an end. -/
def Live (m : Computation κ α) : Prop := ∀ n, Quiet bad m n → Finishes m n

variable {bad}

theorem Live.pure (a : α) : Live bad (Pure.pure a : Computation κ α) := fun _ _ => ⟨0, nofun⟩

theorem Live.giveUp : Live bad (giveUp : Computation κ α) := fun _ _ => ⟨0, nofun⟩

theorem Live.undefined : Live bad (undefined : Computation κ α) := fun _ _ => ⟨0, nofun⟩

theorem Live.attempt (answer : Nat → Option α × κ) : Live bad (attempt answer) := by
  refine fun n _ => ⟨0, ?_⟩
  show answered (answer n).1 ≠ _
  cases (answer n).1 with
  | none => nofun
  | some a => nofun

theorem Quiet.first {m : Computation κ α} {k : α → Computation κ β} {n : Nat} (quiet : Quiet bad (m >>= k) n) :
    Quiet bad m n := fun fuel c member => quiet fuel c ((calls_le_chain _ _).subset member)

/-- The calls of what follows are calls of the whole. -/
theorem Quiet.second {m : Computation κ α} {k : α → Computation κ β} {n : Nat} (quiet : Quiet bad (m >>= k) n)
    {a : α} {first : List κ} (returns : Returns m n a first) : Quiet bad (k a) (n + first.length) := by
  obtain ⟨fuel, run⟩ := returns
  intro fuel' c member
  apply quiet (max fuel fuel')
  rw [bind_run, Returns.mono run (Nat.le_max_left ..), chain_ok]
  exact List.mem_append_right _ (((k a).more _ (Nat.le_max_right ..)).2.subset member)

theorem Returns.quiet {m : Computation κ α} {n : Nat} {a : α} {calls : List κ} (returns : Returns m n a calls)
    (quiet : Quiet bad m n) : ∀ c ∈ calls, ¬bad c := by
  obtain ⟨fuel, run⟩ := returns
  intro c member
  exact quiet fuel c (by rw [run]; exact member)

theorem finishes_bind {m : Computation κ α} {k : α → Computation κ β} {n : Nat} (first : Finishes m n)
    (second : ∀ a calls, Returns m n a calls → Finishes (k a) (n + calls.length)) : Finishes (m >>= k) n := by
  obtain ⟨fuel, ended⟩ := first
  cases ran : m.run fuel n with
  | mk result calls =>
    rw [ran] at ended
    cases result with
    | error stop =>
      refine ⟨fuel, ?_⟩
      rw [bind_run, ran]
      exact error_ne ended
    | ok a =>
      obtain ⟨fuel', ended'⟩ := second a calls ⟨fuel, ran⟩
      refine ⟨max fuel fuel', ?_⟩
      rw [bind_run, Returns.mono ran (Nat.le_max_left ..), chain_ok, Finishes.mono ended' (Nat.le_max_right ..)]
      exact ended'

theorem Live.bind {m : Computation κ α} {k : α → Computation κ β} (first : Live bad m)
    (second : ∀ a, Live bad (k a)) : Live bad (m >>= k) := by
  intro n quiet
  exact finishes_bind (first n quiet.first) fun a _ returns => second a _ (quiet.second returns)

/-! ## Loops -/

section Loops

variable (body : σ → Computation κ (Turn σ α))

/-- One turn of a loop, and the rest of it. -/
def unrolled (s : σ) : Computation κ α :=
  body s >>= fun turn =>
    match turn with
    | .done a => pure a
    | .again s' => loop body s'

theorem unrolled_extends (s : σ) (fuel n : Nat) :
    ((unrolled body s).run fuel n).Extends ((loop body s).run (fuel + 1) n) := by
  refine ((body s).more n (Nat.le_succ fuel)).chain fun turn calls => ?_
  cases turn with
  | done a => exact .refl _
  | again s' => exact turns_extends body (Nat.le_succ fuel) (Nat.le_refl fuel) s' _

variable {body}

/-- What holds before every turn and leads from the last one to the value. -/
theorem Returns.loop_induct {Inv : σ → Prop} {Post : α → Prop}
    (step : ∀ s n turn calls, Inv s → Returns (body s) n turn calls → turn.Holds Inv Post)
    {s : σ} {n : Nat} {a : α} {calls : List κ} (returns : Returns (loop body s) n a calls) (start : Inv s) :
    Post a := by
  obtain ⟨fuel, run⟩ := returns
  have all : ∀ count s n calls, Inv s → turns body fuel count s n = (.ok a, calls) → Post a := by
    intro count
    induction count with
    | zero => exact fun _ _ _ _ run => nomatch run
    | succ count ih =>
      intro s n calls inv run
      rw [turns] at run
      cases ran : (body s).run fuel n with
      | mk result first =>
        rw [ran] at run
        cases result with
        | error stop => cases run
        | ok turn =>
          have next := step s n turn first inv ⟨fuel, ran⟩
          cases turn with
          | done b =>
            cases run
            exact next
          | again s' => exact ih s' _ _ next (Prod.ext (Prod.mk.inj run).1 rfl)
  exact all fuel s n calls start run

theorem Finishes.of_unrolled {s : σ} {n : Nat} (ends : Finishes (unrolled body s) n) : Finishes (loop body s) n := by
  obtain ⟨fuel, ended⟩ := ends
  refine ⟨fuel + 1, ?_⟩
  rw [(unrolled_extends body s fuel n).1 ended]
  exact ended

theorem Quiet.unrolled {s : σ} {n : Nat} (quiet : Quiet bad (loop body s) n) : Quiet bad (unrolled body s) n :=
  fun fuel c member => quiet (fuel + 1) c ((unrolled_extends body s fuel n).2.subset member)

/-- A loop comes to an end when every turn without a bad call goes down in a
well-founded order. -/
theorem live_loop {below : σ → σ → Prop} (wf : WellFounded below) (Inv : σ → Prop)
    (live : ∀ s, Inv s → Live bad (body s))
    (next : ∀ s n s' calls, Inv s → Returns (body s) n (.again s') calls → (∀ c ∈ calls, ¬bad c) →
      Inv s' ∧ below s' s) {s : σ} (inv : Inv s) : Live bad (loop body s) := by
  induction s using wf.induction with
  | _ s ih =>
    intro n quiet
    have whole := quiet.unrolled
    apply Finishes.of_unrolled
    refine finishes_bind (live s inv n whole.first) fun turn calls returns => ?_
    have rest := whole.second returns
    cases turn with
    | done a => exact ⟨0, nofun⟩
    | again s' =>
      obtain ⟨inv', down⟩ := next s n s' calls inv returns (returns.quiet whole.first)
      exact ih s' down inv' _ rest

theorem live_loop_measure (size : σ → Nat) (Inv : σ → Prop) (live : ∀ s, Inv s → Live bad (body s))
    (next : ∀ s n s' calls, Inv s → Returns (body s) n (.again s') calls → (∀ c ∈ calls, ¬bad c) →
      Inv s' ∧ size s' < size s) {s : σ} (inv : Inv s) : Live bad (loop body s) :=
  live_loop (measure size).wf Inv live next inv

end Loops

/-! ## Calls -/

section Making

variable {p : κ → Prop}

variable (p) in
/-- Every call of the computation is such a call. -/
def Makes (m : Computation κ α) : Prop := ∀ fuel n, ∀ c ∈ (m.run fuel n).2, p c

theorem Makes.pure (a : α) : Makes p (Pure.pure a : Computation κ α) := fun _ _ _ member => nomatch member

theorem Makes.attempt {answer : Nat → Option α × κ} (made : ∀ n, p (answer n).2) : Makes p (attempt answer) := by
  intro _ n c member
  obtain rfl := List.mem_singleton.mp member
  exact made n

theorem Makes.chain {first : Result κ α} {rest : α → List κ → Result κ β} (made : ∀ c ∈ first.2, p c)
    (madeRest : ∀ a calls, ∀ c ∈ (rest a calls).2, p c) : ∀ c ∈ (first.chain rest).2, p c := by
  obtain ⟨result, calls⟩ := first
  cases result with
  | error stop => exact made
  | ok a =>
    intro c member
    rcases List.mem_append.mp member with before | after
    · exact made c before
    · exact madeRest a calls c after

theorem Makes.bind {m : Computation κ α} {k : α → Computation κ β} (first : Makes p m)
    (second : ∀ a, Makes p (k a)) : Makes p (m >>= k) :=
  fun fuel n => Makes.chain (first fuel n) fun a _ => second a fuel _

theorem Makes.loop {body : σ → Computation κ (Turn σ α)} (turn : ∀ s, Makes p (body s)) (s : σ) :
    Makes p (loop body s) := by
  intro fuel n
  have all : ∀ count s n, ∀ c ∈ (turns body fuel count s n).2, p c := by
    intro count
    induction count with
    | zero => exact fun _ _ _ member => nomatch member
    | succ count ih =>
      intro s n
      refine Makes.chain (turn s fuel n) fun turn _ => ?_
      cases turn with
      | done a => exact fun _ member => nomatch member
      | again s' => exact ih s' _
  exact all fuel s n

end Making

/-! ## Giving up -/

section Failing

variable (aborts : κ → Prop)

/-- The computation gives up exactly when one of its calls makes it. -/
def FailsBy (m : Computation κ α) : Prop :=
  ∀ fuel n, (m.run fuel n).1 = .error .failed ↔ ∃ c ∈ (m.run fuel n).2, aborts c

variable {aborts}

theorem FailsBy.pure (a : α) : FailsBy aborts (Pure.pure a : Computation κ α) :=
  fun _ _ => ⟨nofun, fun ⟨_, member, _⟩ => nomatch member⟩

theorem FailsBy.undefined : FailsBy aborts (undefined : Computation κ α) :=
  fun _ _ => ⟨nofun, fun ⟨_, member, _⟩ => nomatch member⟩

theorem FailsBy.attempt {answer : Nat → Option α × κ}
    (exact : ∀ n, aborts (answer n).2 ↔ (answer n).1 = none) : FailsBy aborts (attempt answer) := by
  intro _ n
  show answered (answer n).1 = _ ↔ ∃ c ∈ [(answer n).2], _
  simp only [List.mem_singleton, exists_eq_left, exact]
  cases (answer n).1 with
  | some a => exact ⟨nofun, nofun⟩
  | none => exact ⟨fun _ => rfl, fun _ => rfl⟩

theorem FailsBy.call {answer : Nat → α × κ} (never : ∀ n, ¬aborts (answer n).2) : FailsBy aborts (call answer) :=
  .attempt fun n => ⟨fun abort => absurd abort (never n), nofun⟩

theorem FailsBy.chain {first : Result κ α} {rest : α → List κ → Result κ β}
    (exact : first.1 = .error .failed ↔ ∃ c ∈ first.2, aborts c)
    (exactRest : ∀ a calls, (rest a calls).1 = .error .failed ↔ ∃ c ∈ (rest a calls).2, aborts c) :
    (first.chain rest).1 = .error .failed ↔ ∃ c ∈ (first.chain rest).2, aborts c := by
  obtain ⟨result, calls⟩ := first
  cases result with
  | error stop =>
    rw [chain_error]
    refine Iff.trans ⟨?_, ?_⟩ exact
    · rintro ⟨⟩
      rfl
    · rintro ⟨⟩
      rfl
  | ok a =>
    have none : ∀ c ∈ calls, ¬aborts c := fun c member abort => nomatch exact.mpr ⟨c, member, abort⟩
    rw [chain_ok, exactRest]
    constructor
    · rintro ⟨c, member, abort⟩
      exact ⟨c, List.mem_append_right _ member, abort⟩
    · rintro ⟨c, member, abort⟩
      rcases List.mem_append.mp member with before | after
      · exact absurd abort (none c before)
      · exact ⟨c, after, abort⟩

theorem FailsBy.bind {m : Computation κ α} {k : α → Computation κ β} (first : FailsBy aborts m)
    (second : ∀ a, FailsBy aborts (k a)) : FailsBy aborts (m >>= k) :=
  fun fuel n => FailsBy.chain (first fuel n) fun a _ => second a fuel _

theorem FailsBy.loop {body : σ → Computation κ (Turn σ α)} (turn : ∀ s, FailsBy aborts (body s)) (s : σ) :
    FailsBy aborts (loop body s) := by
  intro fuel n
  have all : ∀ count s n, (turns body fuel count s n).1 = .error .failed ↔
      ∃ c ∈ (turns body fuel count s n).2, aborts c := by
    intro count
    induction count with
    | zero => exact fun _ _ => ⟨nofun, fun ⟨_, member, _⟩ => nomatch member⟩
    | succ count ih =>
      intro s n
      refine FailsBy.chain (turn s fuel n) fun turn _ => ?_
      cases turn with
      | done a => exact ⟨nofun, fun ⟨_, member, _⟩ => nomatch member⟩
      | again s' => exact ih s' _
  exact all fuel s n

/-- The computation never comes to something undefined. -/
def Defined (m : Computation κ α) : Prop := ∀ fuel n, (m.run fuel n).1 ≠ .error .undefined

theorem Defined.pure (a : α) : Defined (Pure.pure a : Computation κ α) := fun _ _ => nofun

theorem Defined.giveUp : Defined (giveUp : Computation κ α) := fun _ _ => nofun

theorem Defined.attempt (answer : Nat → Option α × κ) : Defined (attempt answer) := by
  intro _ n
  show answered (answer n).1 ≠ _
  cases (answer n).1 with
  | none => nofun
  | some a => nofun

theorem Defined.chain {first : Result κ α} {rest : α → List κ → Result κ β} (defined : first.1 ≠ .error .undefined)
    (definedRest : ∀ a calls, (rest a calls).1 ≠ .error .undefined) : (first.chain rest).1 ≠ .error .undefined := by
  obtain ⟨result, calls⟩ := first
  cases result with
  | error stop => exact error_ne defined
  | ok a => exact definedRest a calls

theorem Defined.bind {m : Computation κ α} {k : α → Computation κ β} (first : Defined m)
    (second : ∀ a, Defined (k a)) : Defined (m >>= k) :=
  fun fuel n => Defined.chain (first fuel n) fun a _ => second a fuel _

theorem Defined.loop {body : σ → Computation κ (Turn σ α)} (turn : ∀ s, Defined (body s)) (s : σ) :
    Defined (loop body s) := by
  intro fuel n
  have all : ∀ count s n, (turns body fuel count s n).1 ≠ .error .undefined := by
    intro count
    induction count with
    | zero => exact fun _ _ => nofun
    | succ count ih =>
      intro s n
      refine Defined.chain (turn s fuel n) fun turn _ => ?_
      cases turn with
      | done a => nofun
      | again s' => exact ih s' _
  exact all fuel s n

variable (aborts bad) in
/-- A call that makes the computation give up does so, and it gives up for no
other reason once a call was bad. -/
def Careful (m : Computation κ α) : Prop :=
  ∀ fuel n, ((∃ c ∈ (m.run fuel n).2, aborts c) → (m.run fuel n).1 = .error .failed) ∧
    ((m.run fuel n).1 = .error .failed → (∃ c ∈ (m.run fuel n).2, aborts c) ∨ ∀ c ∈ (m.run fuel n).2, ¬bad c)

theorem FailsBy.careful {m : Computation κ α} (exact : FailsBy aborts m) : Careful bad aborts m :=
  fun fuel n => ⟨(exact fuel n).mpr, fun failed => .inl ((exact fuel n).mp failed)⟩

theorem Careful.giveUp : Careful bad aborts (giveUp : Computation κ α) :=
  fun _ _ => ⟨fun ⟨_, member, _⟩ => (nomatch member), fun _ => .inr fun _ member => nomatch member⟩

/-- What comes first gives up for its calls alone, and lets no bad one pass. -/
theorem Careful.bind {m : Computation κ α} {k : α → Computation κ β} (first : FailsBy aborts m)
    (guarded : Makes (fun c => bad c → aborts c) m) (second : ∀ a, Careful bad aborts (k a)) : Careful bad aborts (m >>= k) := by
  intro fuel n
  have exact := first fuel n
  have guarded := guarded fuel n
  rw [bind_run]
  generalize m.run fuel n = ran at exact guarded
  obtain ⟨result, calls⟩ := ran
  cases result with
  | error stop =>
    rw [chain_error]
    constructor
    · intro abort
      cases exact.mpr abort
      rfl
    · rintro ⟨⟩
      exact .inl (exact.mp rfl)
  | ok a =>
    have none : ∀ c ∈ calls, ¬aborts c := fun c member abort => nomatch exact.mpr ⟨c, member, abort⟩
    obtain ⟨aborted, failed⟩ := second a fuel (n + calls.length)
    rw [chain_ok]
    constructor
    · rintro ⟨c, member, abort⟩
      rcases List.mem_append.mp member with before | after
      · exact absurd abort (none c before)
      · exact aborted ⟨c, after, abort⟩
    · intro gaveUp
      rcases failed gaveUp with ⟨c, after, abort⟩ | clean
      · exact .inl ⟨c, List.mem_append_right _ after, abort⟩
      · refine .inr fun c member isBad => ?_
        rcases List.mem_append.mp member with before | after
        · exact none c before (guarded c before isBad)
        · exact clean c after isBad

variable (bad) in
/-- The computation comes to an end, and gives up if one of its calls was bad. -/
def Detects (m : Computation κ α) : Prop :=
  Finishes m 0 ∧ ∀ fuel, (m.run fuel 0).1 ≠ .error .unfinished → (∃ c ∈ (m.run fuel 0).2, bad c) →
    (m.run fuel 0).1 = .error .failed

/-- **Bad calls are detected exactly if there are none, or some call makes the
computation give up.** -/
theorem detects_iff {m : Computation κ α} (careful : Careful bad aborts m) (live : Live bad m) :
    Detects bad m ↔ (∃ fuel, ∃ c ∈ (m.run fuel 0).2, aborts c) ∨ ∀ fuel, ∀ c ∈ (m.run fuel 0).2, ¬bad c := by
  constructor
  · rintro ⟨⟨fuel, ended⟩, detects⟩
    -- More fuel than the run needs makes no more calls.
    have all : ∀ fuel', (m.run fuel' 0).2 <+: (m.run fuel 0).2 := by
      intro fuel'
      have further := (m.more 0 (Nat.le_max_left fuel' fuel)).2
      rwa [Finishes.mono ended (Nat.le_max_right fuel' fuel)] at further
    by_cases noticed : ∃ c ∈ (m.run fuel 0).2, bad c
    · rcases (careful fuel 0).2 (detects fuel ended noticed) with abort | clean
      · exact .inl ⟨fuel, abort⟩
      · obtain ⟨c, member, isBad⟩ := noticed
        exact absurd isBad (clean c member)
    · exact .inr fun fuel' c member isBad => noticed ⟨c, (all fuel').subset member, isBad⟩
  · rintro (⟨fuel, abort⟩ | quiet)
    · have failed := (careful fuel 0).1 abort
      have ended : (m.run fuel 0).1 ≠ .error .unfinished := by
        rw [failed]
        nofun
      refine ⟨⟨fuel, ended⟩, fun fuel' ended' _ => ?_⟩
      rw [← Finishes.mono ended' (Nat.le_max_right fuel fuel'), Finishes.mono ended (Nat.le_max_left ..)]
      exact failed
    · refine ⟨live 0 quiet, fun fuel _ noticed => ?_⟩
      obtain ⟨c, member, isBad⟩ := noticed
      exact absurd isBad (quiet fuel c member)

end Failing

end Computation

end OpenDelta
