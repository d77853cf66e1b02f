import OpenDelta.Vcdiff.Decode

/-!
# Steps that do not see where their input ends

A step of the decoder *carries on* (`CarriesOn`) when it does the same with more
input behind, and goes on after a wait as if the next chunk had been there from the
start. What takes a value carries on (`Takes.bind`, `Field.carriesOn`), what does not
look at the input does (`Steady`), and so do the ways to put them together.
-/

namespace OpenDelta.Vcdiff

/-- The stream with more input behind. -/
def Stream.more (s : Stream) (input : Bytes) : Stream := { s with input := s.input ++ input }

/-- The parts of an integer and the input are all that differs. -/
def Stream.parts (s : Stream) (part32 part64 : Nat) (input : Bytes) : Stream := { s with part32, part64, input }

/-- The bytes of the three sections of a window. -/
def Stream.total (s : Stream) : Nat := (s.sect .inst).size + (s.sect .addr).size + (s.sect .data).size

/-- Those of a section that are still to come. -/
def Section.left (sect : Section) : Nat := sect.size - sect.pos

/-- Those of the window that are. -/
def Stream.left (s : Stream) : Nat :=
  match s.decState with
  | .data => (s.sect .data).left + (s.sect .inst).left + (s.sect .addr).left
  | .inst => (s.sect .inst).left + (s.sect .addr).left
  | .addr => (s.sect .addr).left
  | _ => 0

/-- `winbytes` counts the bytes that have been taken. -/
structure Stream.Tallied (s : Stream) : Prop where
  small : s.winbytes < 2 ^ 32
  sum : usize (s.winbytes + s.left) = usize s.total

/-- With a block of the allocation, the sections of the window do not add up to more than
`2 ^ 32` bytes: the decoder knows when they are all there, and has room for each. -/
def Stream.Short (s : Stream) : Prop := s.total + allocsize ≤ 2 ^ 32

instance (s : Stream) : Decidable s.Short := inferInstanceAs (Decidable (_ ≤ _))

/-- What a call needs to know how much of the sections is there. -/
def Stream.Fits (s : Stream) : Prop := s.decState ∈ DecState.sections → s.Tallied ∧ s.Short

theorem Stream.Fits.more {s : Stream} (fits : s.Fits) (more : Bytes) : (s.more more).Fits := fun within =>
  ⟨⟨(fits within).1.small, (fits within).1.sum⟩, (fits within).2⟩

/-- A return that ends what the decoder has begun. -/
structure Answer.Final (answer : Answer) (s : Stream) : Prop where
  other : answer ≠ .input
  fits : s.Fits

/-! ## One value -/

/-- A reader of one value that may wait within it. -/
structure Takes (take : Stream → Step (Nat × Stream)) : Prop where
  value : ∀ {s s' v} more, take s = .ok (v, s') → take (s.more more) = .ok (v, s'.more more)
  stops : ∀ {s s' answer} more, take s = .error (answer, s') → answer.Final s →
    take (s.more more) = .error (answer, s'.more more)
  waits : ∀ {s s'} more, take s = .error (.input, s') →
    (∃ part32 part64, s' = s.parts part32 part64 []) ∧ take (s.more more) = take (s'.more more)
  same : ∀ {s s' v}, take s = .ok (v, s') → ∃ part32 part64 input, s' = s.parts part32 part64 input

theorem takes_byte : Takes takeByte where
  value := by
    intro s s' v more ok
    unfold takeByte at ok ⊢
    split at ok
    · cases ok
    · rename_i b input eq
      cases ok
      simp only [Stream.more, eq, List.cons_append]
  stops := by
    intro s s' answer more error final
    unfold takeByte at error
    split at error
    · cases error
      exact absurd rfl final.other
    · cases error
  waits := by
    intro s s' more error
    unfold takeByte at error
    split at error
    · rename_i none
      cases error
      exact ⟨⟨s.part32, s.part64, by rw [← none]; rfl⟩, rfl⟩
    · cases error
  same := by
    intro s s' v ok
    unfold takeByte at ok
    split at ok
    · cases ok
    · cases ok
      exact ⟨_, _, _, rfl⟩

theorem takes_size : Takes takeSize where
  value := by
    intro s s' v more ok
    have append := decodeInteger_append uint32OflowMask s.part32 s.input more
    unfold takeSize at ok ⊢
    split at ok
    · rename_i eq
      cases ok
      simp only [Stream.more, append, eq, Decoded.further]
    · cases ok
    · cases ok
  stops := by
    intro s s' answer more error final
    have append := decodeInteger_append uint32OflowMask s.part32 s.input more
    unfold takeSize at error ⊢
    split at error
    · cases error
    · cases error
      exact absurd rfl final.other
    · rename_i eq
      cases error
      simp only [Stream.more, append, eq, Decoded.further]
  waits := by
    intro s s' more error
    have append := decodeInteger_append uint32OflowMask s.part32 s.input more
    unfold takeSize at error
    split at error
    · cases error
    · rename_i eq
      cases error
      refine ⟨⟨_, _, rfl⟩, ?_⟩
      unfold takeSize
      simp only [Stream.more, append, eq, Decoded.further, List.nil_append]
    · cases error
  same := by
    intro s s' v ok
    unfold takeSize at ok
    split at ok
    · cases ok
      exact ⟨_, _, _, rfl⟩
    · cases ok
    · cases ok

theorem takes_offset : Takes takeOffset where
  value := by
    intro s s' v more ok
    have append := decodeInteger_append uint64OflowMask s.part64 s.input more
    unfold takeOffset at ok ⊢
    split at ok
    · rename_i eq
      cases ok
      simp only [Stream.more, append, eq, Decoded.further]
    · cases ok
    · cases ok
  stops := by
    intro s s' answer more error final
    have append := decodeInteger_append uint64OflowMask s.part64 s.input more
    unfold takeOffset at error ⊢
    split at error
    · cases error
    · cases error
      exact absurd rfl final.other
    · rename_i eq
      cases error
      simp only [Stream.more, append, eq, Decoded.further]
  waits := by
    intro s s' more error
    have append := decodeInteger_append uint64OflowMask s.part64 s.input more
    unfold takeOffset at error
    split at error
    · cases error
    · rename_i eq
      cases error
      refine ⟨⟨_, _, rfl⟩, ?_⟩
      unfold takeOffset
      simp only [Stream.more, append, eq, Decoded.further, List.nil_append]
    · cases error
  same := by
    intro s s' v ok
    unfold takeOffset at ok
    split at ok
    · cases ok
      exact ⟨_, _, _, rfl⟩
    · cases ok
    · cases ok

/-! ## A step -/

/-- What a step leaves as it is when it waits for input. -/
structure Stays (s s' : Stream) : Prop where
  hdrInd : s'.hdrInd = s.hdrInd
  winInd : s'.winInd = s.winInd
  decState : s'.decState = s.decState ∨ s.decState ∈ DecState.sections ∧ s'.decState ∈ DecState.sections

/-- A step that does not see where its input ends: it does the same with more
behind, and when it waits, it has used up what it had. -/
structure CarriesOn (step : Stream → Step Stream) : Prop where
  goes : ∀ {s s'} more, step s = .ok s' → s.Fits → step (s.more more) = .ok (s'.more more)
  stops : ∀ {s s' answer} more, step s = .error (answer, s') → answer.Final s →
    step (s.more more) = .error (answer, s'.more more)
  used : ∀ {s s'}, step s = .error (.input, s') → s'.input = []
  stays : ∀ {s s'}, step s = .error (.input, s') → Stays s s'
  waits : ∀ {s s'} more, step s = .error (.input, s') → s.Fits → step (s.more more) = step (s'.more more)

/-- A step that does not look at the input. -/
structure Steady (step : Stream → Step Stream) : Prop where
  goes : ∀ {s s'} more, step s = .ok s' → step (s.more more) = .ok (s'.more more)
  stops : ∀ {s s' answer} more, step s = .error (answer, s') → step (s.more more) = .error (answer, s'.more more)
  never : ∀ {s s'}, step s ≠ .error (.input, s')

theorem Steady.carriesOn {step : Stream → Step Stream} (steady : Steady step) : CarriesOn step where
  goes more ok _ := steady.goes more ok
  stops more stopped _ := steady.stops more stopped
  used waited := absurd waited steady.never
  stays waited := absurd waited steady.never
  waits _ waited := absurd waited steady.never

/-- What is done with a value that has been taken. -/
theorem CarriesOn.bind {step next : Stream → Step Stream} (carries : CarriesOn step) (steady : Steady next) :
    CarriesOn fun s => step s >>= next where
  goes := by
    intro s s' more ok fits
    obtain ⟨mid, first, second⟩ := bind_ok ok
    rw [carries.goes more first fits]
    exact steady.goes more second
  stops := by
    intro s s' answer more error final
    cases first : step s with
    | ok mid =>
      rw [first] at error
      rw [carries.goes more first final.fits]
      exact steady.stops more error
    | error returned =>
      rw [first] at error
      cases error
      rw [carries.stops more first final]
      rfl
  used := by
    intro s s' error
    cases first : step s with
    | ok mid =>
      rw [first] at error
      exact absurd error steady.never
    | error returned =>
      rw [first] at error
      cases error
      exact carries.used first
  stays := by
    intro s s' error
    cases first : step s with
    | ok mid =>
      rw [first] at error
      exact absurd error steady.never
    | error returned =>
      rw [first] at error
      cases error
      exact carries.stays first
  waits := by
    intro s s' more error fits
    cases first : step s with
    | ok mid =>
      rw [first] at error
      exact absurd error steady.never
    | error returned =>
      rw [first] at error
      cases error
      rw [carries.waits more first fits]

/-! ## A value for a field -/

@[simp] theorem availInput_input (s : Stream) (input : Bytes) : (availInput s input).input = input := rfl

@[simp] theorem availInput_availInput (s : Stream) (input input' : Bytes) :
    availInput (availInput s input) input' = availInput s input' := rfl

theorem Stream.more_eq (s : Stream) (more : Bytes) : s.more more = availInput s (s.input ++ more) := rfl

/-- A field that holds bytes, of which some may be there. -/
structure Field (get : Stream → Bytes) (size : Stream → Nat) (store : Stream → Bytes → Stream) : Prop where
  get_input : ∀ s input, get (availInput s input) = get s
  get_store : ∀ s bytes, get (store s bytes) = bytes
  size_input : ∀ s input, size (availInput s input) = size s
  size_store : ∀ s bytes, size (store s bytes) = size s
  store_store : ∀ s bytes bytes', store (store s bytes) bytes' = store s bytes'
  store_input : ∀ s bytes input, store (availInput s input) bytes = availInput (store s bytes) input
  stays : ∀ s bytes input, Stays s (availInput (store s bytes) input)

theorem takeBytes_short {got : Bytes} {size : Nat} {store : Stream → Bytes → Stream} {s : Stream}
    (short : s.input.length < size - got.length) :
    takeBytes got size store s = .error (.input, store (availInput s []) (got ++ s.input)) := by
  rw [takeBytes, if_pos short, List.take_of_length_le (Nat.le_of_lt short),
    List.drop_eq_nil_of_le (Nat.le_of_lt short)]
  rfl

theorem takeBytes_enough {got : Bytes} {size : Nat} {store : Stream → Bytes → Stream} {s : Stream}
    (enough : size - got.length ≤ s.input.length) :
    takeBytes got size store s =
      .ok (store (availInput s (s.input.drop (size - got.length))) (got ++ s.input.take (size - got.length))) := by
  rw [takeBytes, if_neg (Nat.not_lt.mpr enough)]
  rfl

section

variable {get : Stream → Bytes} {size : Stream → Nat} {store : Stream → Bytes → Stream} {s : Stream}

/-- With all that is wanted, more input stays behind. -/
theorem Field.takeBytes_more (field : Field get size store) (enough : size s - (get s).length ≤ s.input.length)
    (more : Bytes) :
    takeBytes (get (s.more more)) (size (s.more more)) store (s.more more) =
      .ok ((store (availInput s (s.input.drop (size s - (get s).length)))
        (get s ++ s.input.take (size s - (get s).length))).more more) := by
  rw [s.more_eq, field.get_input, field.size_input, takeBytes_enough, Stream.more_eq]
  · simp only [field.store_input, availInput_availInput, availInput_input]
    rw [List.take_append_of_le_length enough, List.drop_append_of_le_length enough]
  · rw [availInput_input, List.length_append]
    omega

/-- With less, what there is has been stored. -/
theorem Field.takeBytes_rest (field : Field get size store) (short : s.input.length < size s - (get s).length)
    (more : Bytes) :
    takeBytes (get (s.more more)) (size (s.more more)) store (s.more more) =
      let s' := (store (availInput s []) (get s ++ s.input)).more more
      takeBytes (get s') (size s') store s' := by
  dsimp only
  simp only [Stream.more_eq, field.get_input, field.size_input, field.store_input, availInput_availInput,
    availInput_input, field.get_store, field.size_store, List.nil_append]
  by_cases few : s.input.length + more.length < size s - (get s).length
  · rw [takeBytes_short, takeBytes_short]
    · simp only [availInput_availInput, availInput_input, field.store_input, field.store_store, List.append_assoc]
    · rw [availInput_input, List.length_append]
      omega
    · rw [availInput_input, List.length_append]
      exact few
  · rw [takeBytes_enough, takeBytes_enough]
    · simp only [availInput_availInput, availInput_input, field.store_input, field.store_store]
      have less : size s - (get s ++ s.input).length = size s - (get s).length - s.input.length := by
        rw [List.length_append]
        omega
      rw [less, List.take_append, List.drop_append, List.take_of_length_le (Nat.le_of_lt short),
        List.drop_eq_nil_of_le (Nat.le_of_lt short), List.nil_append, List.append_assoc]
    · rw [availInput_input, List.length_append]
      omega
    · rw [availInput_input, List.length_append]
      omega

theorem takeBytes_error {got : Bytes} {n : Nat} {s' : Stream} {answer : Answer}
    (error : takeBytes got n store s = .error (answer, s')) : s' = store (availInput s []) (got ++ s.input) := by
  by_cases short : s.input.length < n - got.length
  · rw [takeBytes_short short] at error
    cases error
    rfl
  · rw [takeBytes_enough (Nat.not_lt.mp short)] at error
    cases error

theorem Field.carriesOn (field : Field get size store) :
    CarriesOn fun s => takeBytes (get s) (size s) store s where
  goes := by
    intro s s' more ok _
    by_cases short : s.input.length < size s - (get s).length
    · rw [takeBytes_short short] at ok
      cases ok
    · have enough := Nat.not_lt.mp short
      rw [takeBytes_enough enough] at ok
      cases ok
      exact field.takeBytes_more enough more
  stops := by
    intro s s' answer more error final
    by_cases short : s.input.length < size s - (get s).length
    · rw [takeBytes_short short] at error
      cases error
      exact absurd rfl final.other
    · rw [takeBytes_enough (Nat.not_lt.mp short)] at error
      cases error
  used := by
    intro s s' error
    by_cases short : s.input.length < size s - (get s).length
    · rw [takeBytes_short short] at error
      cases error
      rw [field.store_input]
      rfl
    · rw [takeBytes_enough (Nat.not_lt.mp short)] at error
      cases error
  stays := by
    intro s s' error
    rw [takeBytes_error error, field.store_input]
    exact field.stays s _ _
  waits := by
    intro s s' more error _
    by_cases short : s.input.length < size s - (get s).length
    · rw [takeBytes_short short] at error
      cases error
      exact field.takeBytes_rest short more
    · rw [takeBytes_enough (Nat.not_lt.mp short)] at error
      cases error

end

/-! ## Steps put together -/

/-- Two ways to go on, by what the input does not change. -/
theorem CarriesOn.ite {step step' : Stream → Step Stream} {cond : Stream → Prop} [DecidablePred cond]
    (carries : CarriesOn step) (carries' : CarriesOn step') (unseen : ∀ s more, cond (s.more more) ↔ cond s)
    (kept : ∀ {s s'}, step s = .error (.input, s') ∨ step' s = .error (.input, s') → Stays s s' →
      (cond s' ↔ cond s)) :
    CarriesOn fun s => if cond s then step s else step' s where
  goes := by
    intro s s' more ok fits
    by_cases here : cond s
    · rw [if_pos here] at ok
      rw [if_pos ((unseen s more).mpr here)]
      exact carries.goes more ok fits
    · rw [if_neg here] at ok
      rw [if_neg (mt (unseen s more).mp here)]
      exact carries'.goes more ok fits
  stops := by
    intro s s' answer more error final
    by_cases here : cond s
    · rw [if_pos here] at error
      rw [if_pos ((unseen s more).mpr here)]
      exact carries.stops more error final
    · rw [if_neg here] at error
      rw [if_neg (mt (unseen s more).mp here)]
      exact carries'.stops more error final
  used := by
    intro s s' error
    split at error
    · exact carries.used error
    · exact carries'.used error
  stays := by
    intro s s' error
    split at error
    · exact carries.stays error
    · exact carries'.stays error
  waits := by
    intro s s' more error
    by_cases here : cond s
    · rw [if_pos here] at error
      rw [if_pos ((unseen s more).mpr here), if_pos ((unseen s' more).mpr ((kept (.inl error) (carries.stays error)).mpr here))]
      exact carries.waits more error
    · rw [if_neg here] at error
      rw [if_neg (mt (unseen s more).mp here),
        if_neg (mt (unseen s' more).mp (mt (kept (.inr error) (carries'.stays error)).mp here))]
      exact carries'.waits more error

theorem Steady.ok {f : Stream → Stream} (commutes : ∀ s more, f (s.more more) = (f s).more more) :
    Steady fun s => .ok (f s) where
  goes more ok := by
    cases ok
    exact congrArg _ (commutes _ more)
  stops _ error := by cases error
  never error := by cases error

theorem Steady.returns {f : Stream → Stream} {answer : Stream → Answer} (unseen : ∀ s more, answer (s.more more) = answer s)
    (commutes : ∀ s more, f (s.more more) = (f s).more more) (other : ∀ s, answer s ≠ .input) :
    Steady fun s => .error (answer s, f s) where
  goes _ ok := by cases ok
  stops more error := by
    cases error
    rw [unseen, commutes]
  never error := other _ (Prod.mk.inj (Except.error.inj error)).1

theorem Steady.refuse (code : Code) (msg : String) : Steady (Vcdiff.refuse code msg) where
  goes _ ok := by cases ok
  stops _ error := by
    cases error
    rfl
  never error := by cases error

theorem Steady.comp {next : Stream → Step Stream} {f : Stream → Stream} (steady : Steady next)
    (commutes : ∀ s more, f (s.more more) = (f s).more more) : Steady fun s => next (f s) where
  goes more ok := by
    rw [commutes]
    exact steady.goes more ok
  stops more error := by
    rw [commutes]
    exact steady.stops more error
  never := steady.never

theorem Steady.must {α : Type} {result : Stream → Except Failure α} {f : Stream → α → Stream}
    (unseen : ∀ s more, result (s.more more) = result s) (commutes : ∀ s a more, f (s.more more) a = (f s a).more more) :
    Steady fun s => Vcdiff.must (result s) s >>= fun a => .ok (f s a) where
  goes := by
    intro s s' more ok
    rw [unseen]
    cases made : result s with
    | ok a =>
      rw [made] at ok
      cases ok
      exact congrArg Except.ok (commutes s a more)
    | error failure =>
      rw [made] at ok
      cases ok
  stops := by
    intro s s' answer more error
    rw [unseen]
    cases made : result s with
    | ok a =>
      rw [made] at error
      cases error
    | error failure =>
      rw [made] at error
      cases error
      rfl
  never := by
    intro s s' error
    cases made : result s with
    | ok a =>
      rw [made] at error
      cases error
    | error failure =>
      rw [made] at error
      cases error

theorem Steady.ite {step step' : Stream → Step Stream} {cond : Stream → Prop} [DecidablePred cond]
    (steady : Steady step) (steady' : Steady step') (unseen : ∀ s more, cond (s.more more) ↔ cond s) :
    Steady fun s => if cond s then step s else step' s where
  goes := by
    intro s s' more ok
    by_cases here : cond s
    · rw [if_pos here] at ok
      rw [if_pos ((unseen s more).mpr here)]
      exact steady.goes more ok
    · rw [if_neg here] at ok
      rw [if_neg (mt (unseen s more).mp here)]
      exact steady'.goes more ok
  stops := by
    intro s s' answer more error
    by_cases here : cond s
    · rw [if_pos here] at error
      rw [if_pos ((unseen s more).mpr here)]
      exact steady.stops more error
    · rw [if_neg here] at error
      rw [if_neg (mt (unseen s more).mp here)]
      exact steady'.stops more error
  never := by
    intro s s' error
    split at error
    · exact steady.never error
    · exact steady'.never error

/-- A value that is taken, and what is done with it. -/
theorem Takes.bind {take : Stream → Step (Nat × Stream)} {next : Nat × Stream → Step Stream} (takes : Takes take)
    (steady : ∀ v, Steady fun s => next (v, s)) : CarriesOn fun s => take s >>= next where
  goes := by
    intro s s' more ok _
    obtain ⟨⟨v, mid⟩, took, ok⟩ := bind_ok ok
    rw [takes.value more took]
    exact (steady v).goes more ok
  stops := by
    intro s s' answer more error final
    cases took : take s with
    | ok taken =>
      obtain ⟨v, mid⟩ := taken
      rw [took] at error
      rw [takes.value more took]
      exact (steady v).stops more error
    | error returned =>
      rw [took] at error
      cases error
      rw [takes.stops more took final]
      rfl
  used := by
    intro s s' error
    cases took : take s with
    | ok taken =>
      rw [took] at error
      exact absurd error (steady taken.1).never
    | error returned =>
      rw [took] at error
      cases error
      obtain ⟨part32, part64, rfl⟩ := (takes.waits [] took).1
      rfl
  stays := by
    intro s s' error
    cases took : take s with
    | ok taken =>
      rw [took] at error
      exact absurd error (steady taken.1).never
    | error returned =>
      rw [took] at error
      cases error
      obtain ⟨part32, part64, rfl⟩ := (takes.waits [] took).1
      exact ⟨rfl, rfl, .inl rfl⟩
  waits := by
    intro s s' more error _
    cases took : take s with
    | ok taken =>
      rw [took] at error
      exact absurd error (steady taken.1).never
    | error returned =>
      rw [took] at error
      cases error
      rw [(takes.waits more took).2]

theorem takeCase_carriesOn {take : Stream → Step (Nat × Stream)} {expr : Stream → Bool}
    {store : Stream → Nat → Stream} {nstate : DecState} (takes : Takes take)
    (unseen : ∀ s more, expr (s.more more) = expr s) (kept : ∀ {s s'}, Stays s s' → expr s' = expr s)
    (stored : ∀ s v more, store (s.more more) v = (store s v).more more) :
    CarriesOn fun s => takeCase take (expr s) store nstate s := by
  have steady (v : Nat) : Steady fun s => .ok { store s v with decState := nstate } := .ok fun s more => by
    rw [stored]
    rfl
  apply CarriesOn.ite (takes.bind steady) (Steady.ok fun _ _ => rfl).carriesOn
  · intro s more
    rw [unseen]
  · intro s s' _ stays
    rw [kept stays]

end OpenDelta.Vcdiff
