import OpenDelta.Vcdiff.Carrying

/-!
# The cases carry on

Each case of the decoder carries on. The sections are taken from the input without
copying when all of it is there, which shows in nothing but in a section that is not
where it is said to be (`decodeSection_eq`).
-/

namespace OpenDelta.Vcdiff

/-! ## The cases -/

section Cases

variable {s s' : Stream}

theorem Stays.secondary (stays : Stays s s') : s'.secondary = s.secondary := by
  rw [Stream.secondary, stays.hdrInd]
  rfl

theorem Stays.codetable (stays : Stays s s') : s'.codetable = s.codetable := by
  rw [Stream.codetable, stays.hdrInd]
  rfl

theorem Stays.appheaded (stays : Stays s s') : s'.appheaded = s.appheaded := by
  rw [Stream.appheaded, stays.hdrInd]
  rfl

theorem Stays.srcortgt (stays : Stays s s') : s'.srcortgt = s.srcortgt := by
  rw [Stream.srcortgt, Stream.copiesSource, Stream.copiesTarget, stays.winInd]
  rfl

theorem Stays.checksummed (stays : Stays s s') : s'.checksummed = s.checksummed := by
  rw [Stream.checksummed, stays.winInd]
  rfl

theorem vcHeadCase_carriesOn : CarriesOn vcHeadCase := by
  have field : Field Stream.magic (fun _ => 4) fun s magic => { s with magic } :=
    ⟨fun _ _ => rfl, fun _ _ => rfl, fun _ _ => rfl, fun _ _ => rfl, fun _ _ _ => rfl, fun _ _ _ => rfl,
      fun _ _ _ => ⟨rfl, rfl, .inl rfl⟩⟩
  apply field.carriesOn.bind
  apply Steady.ite (.refuse _ _) _ fun _ _ => Iff.rfl
  exact .ite (.refuse _ _) (.ok fun _ _ => rfl) fun _ _ => Iff.rfl

theorem hdrIndCase_carriesOn : CarriesOn hdrIndCase := by
  have check : Steady hdrIndCheck := .ite (.refuse _ _) (.ok fun _ _ => rfl) fun _ _ => Iff.rfl
  exact takes_byte.bind fun v => check.comp fun _ _ => rfl

theorem secondIdCase_carriesOn : CarriesOn secondIdCase := by
  have check : Steady secondIdCheck := .returns (fun _ _ => rfl) (fun _ _ => rfl) fun _ => nofun
  refine .ite ?_ (Steady.ok fun _ _ => rfl).carriesOn (fun _ _ => Iff.rfl) fun _ stays => by rw [stays.secondary]
  refine CarriesOn.bind ?_ check
  exact takeCase_carriesOn takes_byte (fun _ _ => rfl) (fun _ => rfl) fun _ _ _ => rfl

theorem tabLenCase_carriesOn : CarriesOn tabLenCase := by
  apply (takeCase_carriesOn takes_size (fun _ _ => rfl) Stays.codetable fun _ _ _ => rfl).bind
  apply Steady.ite _ (.ok fun _ _ => rfl) fun _ _ => Iff.rfl
  exact .ite (.refuse _ _) (.ok fun _ _ => rfl) fun _ _ => Iff.rfl

theorem nearCase_carriesOn : CarriesOn nearCase :=
  takeCase_carriesOn takes_byte (fun _ _ => rfl) Stays.codetable fun _ _ _ => rfl

theorem sameCase_carriesOn : CarriesOn sameCase :=
  takeCase_carriesOn takes_byte (fun _ _ => rfl) Stays.codetable fun _ _ _ => rfl

theorem tabDatCase_carriesOn (applyTableEncoding : Nat → Nat → Bytes → Except Failure (List Dinst)) :
    CarriesOn (tabDatCase applyTableEncoding) := by
  have field : Field Stream.codetbl Stream.codetblsz fun s codetbl => { s with codetbl } :=
    ⟨fun _ _ => rfl, fun _ _ => rfl, fun _ _ => rfl, fun _ _ => rfl, fun _ _ _ => rfl, fun _ _ _ => rfl,
      fun _ _ _ => ⟨rfl, rfl, .inl rfl⟩⟩
  have read : CarriesOn (readTable applyTableEncoding) :=
    field.carriesOn.bind (.must (fun _ _ => rfl) fun _ _ _ => rfl)
  have next : Steady fun s => .ok { s with decState := .appLen } := .ok fun _ _ => rfl
  refine CarriesOn.bind ?_ next
  exact .ite read (Steady.ok fun _ _ => rfl).carriesOn (fun _ _ => Iff.rfl) fun _ stays => by rw [stays.codetable]

theorem appLenCase_carriesOn : CarriesOn appLenCase :=
  takeCase_carriesOn takes_size (fun _ _ => rfl) Stays.appheaded fun _ _ _ => rfl

theorem appDatCase_carriesOn : CarriesOn appDatCase := by
  have field : Field Stream.appheader Stream.appheadsz fun s appheader => { s with appheader } :=
    ⟨fun _ _ => rfl, fun _ _ => rfl, fun _ _ => rfl, fun _ _ => rfl, fun _ _ _ => rfl, fun _ _ _ => rfl,
      fun _ _ _ => ⟨rfl, rfl, .inl rfl⟩⟩
  have overruns : Steady fun s => .error (.undefined, s) := .returns (fun _ _ => rfl) (fun _ _ => rfl) fun _ => nofun
  have read : CarriesOn readAppheader := by
    refine .ite overruns.carriesOn field.carriesOn (fun _ _ => Iff.rfl) ?_
    rintro s s' (error | error) -
    · cases error
    · rw [takeBytes_error error]
      exact Iff.rfl
  have next : Steady fun s => .ok { s with decState := .winInd } := .ok fun _ _ => rfl
  refine CarriesOn.bind ?_ next
  exact .ite read (Steady.ok fun _ _ => rfl).carriesOn (fun _ _ => Iff.rfl) fun _ stays => by rw [stays.appheaded]

theorem winIndCase_carriesOn : CarriesOn winIndCase := by
  have check : Steady winIndCheck := .ite (.refuse _ _) (.ok fun _ _ => rfl) fun _ _ => Iff.rfl
  have next : Steady nextWinstart := .ite (.refuse _ _) (check.comp fun _ _ => rfl) fun _ _ => Iff.rfl
  exact takes_byte.bind fun v => next.comp fun _ _ => rfl

theorem cpyLenCase_carriesOn : CarriesOn cpyLenCase := by
  apply (takeCase_carriesOn takes_size (fun _ _ => rfl) Stays.srcortgt fun _ _ _ => rfl).bind
  exact .ok fun _ _ => rfl

theorem cpyOffCase_carriesOn : CarriesOn cpyOffCase := by
  apply (takeCase_carriesOn takes_offset (fun _ _ => rfl) Stays.srcortgt fun _ _ _ => rfl).bind
  apply Steady.ite (.refuse _ _) _ fun _ _ => Iff.rfl
  exact .ite (.refuse _ _) (.ok fun _ _ => rfl) fun _ _ => Iff.rfl

theorem encLenCase_carriesOn : CarriesOn encLenCase :=
  takeCase_carriesOn takes_size (fun _ _ => rfl) (fun _ => rfl) fun _ _ _ => rfl

theorem tgtLenCase_carriesOn : CarriesOn tgtLenCase := by
  apply (takeCase_carriesOn takes_size (fun _ _ => rfl) (fun _ => rfl) fun _ _ _ => rfl).bind
  apply Steady.ite (.refuse _ _) _ fun _ _ => Iff.rfl
  exact .ite (.refuse _ _) (.ok fun _ _ => rfl) fun _ _ => Iff.rfl

theorem delIndCase_carriesOn : CarriesOn delIndCase := by
  apply (takeCase_carriesOn takes_byte (fun _ _ => rfl) (fun _ => rfl) fun _ _ _ => rfl).bind
  apply Steady.ite (.refuse _ _) _ fun _ _ => Iff.rfl
  exact .ite (.refuse _ _) (.ok fun _ _ => rfl) fun _ _ => Iff.rfl

theorem sectLenCase_carriesOn (name : SectName) (nstate : DecState) : CarriesOn (sectLenCase name nstate) :=
  takeCase_carriesOn takes_size (fun _ _ => rfl) (fun _ => rfl) fun _ _ _ => rfl

theorem ckSumCase_carriesOn : CarriesOn ckSumCase := by
  have field : Field Stream.cksum (fun _ => 4) fun s cksum => { s with cksum } :=
    ⟨fun _ _ => rfl, fun _ _ => rfl, fun _ _ => rfl, fun _ _ => rfl, fun _ _ _ => rfl, fun _ _ _ => rfl,
      fun _ _ _ => ⟨rfl, rfl, .inl rfl⟩⟩
  have read : CarriesOn readCksum := field.carriesOn.bind (.ok fun _ _ => rfl)
  have other (s : Stream) : (if s.currentWindow = 0 then Answer.gotHeader else .winStart) ≠ .input := by
    split <;> nofun
  have check : Steady ckSumCheck :=
    .ite (.refuse _ _) (.returns (fun _ _ => rfl) (fun _ _ => rfl) other) fun _ _ => Iff.rfl
  refine CarriesOn.bind ?_ (check.comp fun _ _ => rfl)
  exact .ite read (Steady.ok fun _ _ => rfl).carriesOn (fun _ _ => Iff.rfl) fun _ stays => by rw [stays.checksummed]

/-! ## The sections -/

section Sections

variable {s s' : Stream} {name : SectName} {nstate : DecState} {copy : Bool}

theorem Stream.fill_more {n : Nat} (there : n ≤ s.input.length) (more : Bytes) :
    (s.more more).fill name n = (s.fill name n).more more := by
  have taken : (s.more more).input.take n = s.input.take n := List.take_append_of_le_length there
  have left : (s.more more).input.drop n = s.input.drop n ++ more := List.drop_append_of_le_length there
  unfold fill
  rw [taken, left]
  rfl

/-- Filling a section in two parts. -/
theorem Stream.fill_fill {n : Nat} (some : s.input ≠ []) (more : Bytes) :
    ((s.fill name s.input.length).more more).fill name n = (s.more more).fill name (s.input.length + n) := by
  have pos := List.length_pos_iff.mpr some
  unfold fill
  simp only [Stream.more, Stream.setSect, if_true, List.take_length, List.drop_length, List.nil_append]
  have ne : (s.sect name).pos + s.input.length ≠ 0 := by omega
  have sum : usize (usize (s.winbytes + s.input.length) + n) = usize (s.winbytes + (s.input.length + n)) := by
    unfold usize
    omega
  rw [if_neg ne, sum, List.take_append, List.drop_append, List.take_of_length_le (Nat.le_add_right _ _),
    List.drop_eq_nil_of_le (Nat.le_add_right _ _), Nat.add_sub_cancel_left, List.nil_append, List.append_assoc,
    Nat.add_assoc]
  congr
  funext other
  split <;> rfl

/-- A section is taken as far as it is there, from wherever it is kept. -/
def gatherSection (name : SectName) (nstate : DecState) (s : Stream) : Step Stream :=
  if (s.sect name).size ≤ (s.sect name).pos then .ok (s.ready name nstate)
  else if s.input = [] then .error (.input, s)
  else takeSection name nstate s

theorem gatherSection_there (there : (s.sect name).size ≤ (s.sect name).pos) :
    gatherSection name nstate s = .ok (s.ready name nstate) := by
  rw [gatherSection, if_pos there]

theorem gatherSection_nil (wants : (s.sect name).pos < (s.sect name).size) (none : s.input = []) :
    gatherSection name nstate s = .error (.input, s) := by
  rw [gatherSection, if_neg (Nat.not_le.mpr wants), if_pos none]

theorem gatherSection_short (some : s.input ≠ [])
    (short : s.input.length < (s.sect name).size - (s.sect name).pos) :
    gatherSection name nstate s = .error (.input, s.fill name s.input.length) := by
  rw [gatherSection, if_neg (by omega), if_neg some, takeSection, if_pos short]

theorem gatherSection_enough (wants : (s.sect name).pos < (s.sect name).size)
    (enough : (s.sect name).size - (s.sect name).pos ≤ s.input.length) :
    gatherSection name nstate s =
      .ok ((s.fill name ((s.sect name).size - (s.sect name).pos)).ready name nstate) := by
  have some : s.input ≠ [] := by
    rintro none
    rw [none, List.length_nil] at enough
    omega
  rw [gatherSection, if_neg (Nat.not_le.mpr wants), if_neg some, takeSection, if_neg (Nat.not_lt.mpr enough)]

/-- What a section comes to. -/
inductive Sectioned (s : Stream) (name : SectName) (nstate : DecState) : Step Stream → Prop where
  | there : (s.sect name).size ≤ (s.sect name).pos → Sectioned s name nstate (.ok (s.ready name nstate))
  | nil : (s.sect name).pos < (s.sect name).size → s.input = [] → Sectioned s name nstate (.error (.input, s))
  | short : s.input ≠ [] → s.input.length < (s.sect name).size - (s.sect name).pos →
      Sectioned s name nstate (.error (.input, s.fill name s.input.length))
  | enough : (s.sect name).pos < (s.sect name).size → (s.sect name).size - (s.sect name).pos ≤ s.input.length →
      Sectioned s name nstate (.ok ((s.fill name ((s.sect name).size - (s.sect name).pos)).ready name nstate))

theorem sectioned (s : Stream) (name : SectName) (nstate : DecState) :
    Sectioned s name nstate (gatherSection name nstate s) := by
  by_cases wants : (s.sect name).pos < (s.sect name).size
  · by_cases none : s.input = []
    · rw [gatherSection_nil wants none]
      exact .nil wants none
    · by_cases enough : (s.sect name).size - (s.sect name).pos ≤ s.input.length
      · rw [gatherSection_enough wants enough]
        exact .enough wants enough
      · rw [gatherSection_short none (Nat.not_le.mp enough)]
        exact .short none (Nat.not_le.mp enough)
  · rw [gatherSection_there (Nat.not_lt.mp wants)]
    exact .there (Nat.not_lt.mp wants)

theorem Sectioned.ok (ok : gatherSection name nstate s = .ok s') : Sectioned s name nstate (.ok s') :=
  ok ▸ sectioned s name nstate

theorem Sectioned.error {answer : Answer} (error : gatherSection name nstate s = .error (answer, s')) :
    Sectioned s name nstate (.error (answer, s')) := error ▸ sectioned s name nstate

/-- A step ends outside of a buffer. -/
def Undefined (result : Step Stream) : Prop := ∃ s, result = .error (.undefined, s)

theorem not_undefined_of_bind {x : Step Stream} {f : Stream → Step Stream} (defined : ¬Undefined (x >>= f)) :
    ¬Undefined x := by
  rintro ⟨s, rfl⟩
  exact defined ⟨s, rfl⟩

/-- Where a section is kept makes no difference but for what is undefined. -/
theorem decodeSection_eq (defined : ¬Undefined (decodeSection name copy nstate s)) :
    decodeSection name copy nstate s = gatherSection name nstate s := by
  unfold decodeSection gatherSection at *
  split
  · rfl
  rename_i wants
  split
  · rfl
  rename_i some
  rw [if_neg wants, if_neg some] at defined
  split
  · rfl
  · rename_i lacks
    rw [if_neg lacks] at defined
    exact absurd ⟨s, rfl⟩ defined

theorem Stream.fill_pos (s : Stream) (name : SectName) (n : Nat) :
    ((s.fill name n).sect name).pos = (s.sect name).pos + n := by
  simp [fill, setSect]

theorem Stream.fill_size (s : Stream) (name : SectName) (n : Nat) :
    ((s.fill name n).sect name).size = (s.sect name).size := by
  simp [fill, setSect]

/-- A section that is partly there goes on where it was. -/
theorem gatherSection_rest (some : s.input ≠ []) (short : s.input.length < (s.sect name).size - (s.sect name).pos)
    (more : Bytes) :
    gatherSection name nstate (s.more more) =
      gatherSection name nstate ((s.fill name s.input.length).more more) := by
  generalize rest : (s.fill name s.input.length).more more = t
  have pos : (t.sect name).pos = (s.sect name).pos + s.input.length := rest ▸ s.fill_pos name _
  have size : (t.sect name).size = (s.sect name).size := rest ▸ s.fill_size name _
  have input : t.input = more := by
    rw [← rest, Stream.more]
    simp [Stream.fill]
  have fills (n : Nat) : t.fill name n = (s.more more).fill name (s.input.length + n) :=
    rest ▸ Stream.fill_fill some more
  generalize whole : s.more more = u
  have pos' : (u.sect name).pos = (s.sect name).pos := whole ▸ rfl
  have size' : (u.sect name).size = (s.sect name).size := whole ▸ rfl
  have input' : u.input = s.input ++ more := whole ▸ rfl
  have length : u.input.length = s.input.length + more.length := by rw [input', List.length_append]
  have ne : u.input ≠ [] := fun none => some (List.append_eq_nil_iff.mp (input' ▸ none)).1
  rw [whole] at fills
  by_cases none : more = []
  · have same : t = u.fill name u.input.length := by
      rw [← rest, ← Stream.fill_more (Nat.le_refl _), whole, input', none, List.append_nil]
    rw [gatherSection_short ne (by rw [length, size', pos', none]; exact short),
      gatherSection_nil (by rw [pos, size]; omega) (by rw [input, none]), same]
  · by_cases few : more.length < (s.sect name).size - (s.sect name).pos - s.input.length
    · rw [gatherSection_short ne (by rw [length, size', pos']; omega),
        gatherSection_short (by rw [input]; exact none) (by rw [input, pos, size]; omega), fills, input, length]
    · rw [gatherSection_enough (s := u) (by rw [pos', size']; omega) (by rw [length, pos', size']; omega),
        gatherSection_enough (by rw [pos, size]; omega) (by rw [input, pos, size]; omega), fills, pos, size, pos', size']
      have sum : s.input.length + ((s.sect name).size - ((s.sect name).pos + s.input.length)) =
          (s.sect name).size - (s.sect name).pos := by omega
      rw [sum]

theorem gatherSection_carriesOn (name : SectName) (nstate : DecState) :
    CarriesOn (gatherSection name nstate) where
  goes := by
    intro s s' more ok _
    cases Sectioned.ok ok with
    | there there => exact gatherSection_there (s := s.more more) there
    | enough wants enough =>
      have enough' : ((s.more more).sect name).size - ((s.more more).sect name).pos ≤ (s.more more).input.length := by
        rw [Stream.more, List.length_append]
        exact Nat.le_trans enough (Nat.le_add_right _ _)
      rw [gatherSection_enough (s := s.more more) wants enough']
      exact congrArg (fun s : Stream => Except.ok (s.ready name nstate)) (Stream.fill_more enough more)
  stops := by
    intro s s' answer more error final
    cases Sectioned.error error with
    | nil => exact absurd rfl final.other
    | short => exact absurd rfl final.other
  used := by
    intro s s' error
    cases Sectioned.error error with
    | nil wants none => exact none
    | short => exact List.drop_length
  stays := by
    intro s s' error
    cases Sectioned.error error with
    | nil => exact ⟨rfl, rfl, .inl rfl⟩
    | short => exact ⟨rfl, rfl, .inl rfl⟩
  waits := by
    intro s s' more error _
    cases Sectioned.error error with
    | nil => rfl
    | short some short => exact gatherSection_rest some short more

/-! ### The bytes that are left -/

/-- The state in which a section is taken. -/
def SectName.state : SectName → DecState
  | data => .data
  | inst => .inst
  | addr => .addr

/-- The state behind it. -/
def SectName.next : SectName → DecState
  | data => .inst
  | inst => .addr
  | addr => .emit

theorem SectName.next_ne (name : SectName) : name.next ≠ name.state := by
  cases name <;> nofun

theorem SectName.state_mem (name : SectName) : name.state ∈ DecState.sections := by
  cases name <;> simp [state, DecState.sections]

theorem Stream.fill_total (s : Stream) (name : SectName) (n : Nat) : (s.fill name n).total = s.total := by
  cases name <;> simp [total, fill, setSect]

theorem Stream.ready_total (s : Stream) (name : SectName) (nstate : DecState) : (s.ready name nstate).total = s.total := by
  cases name <;> simp [total, ready, setSect]

theorem Stream.fill_left {n : Nat} (current : s.decState = name.state) (room : n ≤ (s.sect name).left) :
    (s.fill name n).left + n = s.left := by
  have state : (s.fill name n).decState = name.state := current
  unfold left
  rw [state, current]
  cases name <;> simp [SectName.state, fill, setSect, Section.left] at room ⊢ <;> omega

theorem Stream.ready_left (current : s.decState = name.state) (there : (s.sect name).left = 0) :
    (s.ready name name.next).left = s.left := by
  have state : (s.ready name name.next).decState = name.next := rfl
  unfold left
  rw [state, current]
  cases name <;> simp [SectName.state, SectName.next, ready, setSect, there]

theorem Stream.Tallied.fill {n : Nat} (tallied : s.Tallied) (current : s.decState = name.state)
    (room : n ≤ (s.sect name).left) : (s.fill name n).Tallied := by
  have left := Stream.fill_left current room
  have sum := tallied.sum
  refine ⟨Nat.mod_lt _ (by omega), ?_⟩
  rw [s.fill_total]
  show usize (usize (s.winbytes + n) + _) = _
  unfold usize at sum ⊢
  omega

theorem Stream.Tallied.ready (tallied : s.Tallied) (current : s.decState = name.state)
    (there : (s.sect name).left = 0) : (s.ready name name.next).Tallied := by
  refine ⟨tallied.small, ?_⟩
  rw [s.ready_total, Stream.ready_left current there]
  exact tallied.sum

/-- What taking a section leaves true, whether it is there as a whole or not. -/
structure Taken (s s' : Stream) : Prop where
  tallied : s.Tallied → s'.Tallied
  total : s'.total = s.total
  short : s.left ≤ s.input.length → s'.left ≤ s'.input.length

theorem Taken.shorts (taken : Taken s s') (short : s.Short) : s'.Short := by
  rw [Stream.Short, taken.total]
  exact short

theorem Taken.refl (s : Stream) : Taken s s := ⟨id, rfl, id⟩

theorem Taken.trans {mid : Stream} (first : Taken s mid) (second : Taken mid s') : Taken s s' :=
  ⟨second.tallied ∘ first.tallied, second.total.trans first.total, second.short ∘ first.short⟩

theorem fill_taken {n : Nat} (current : s.decState = name.state) (room : n ≤ (s.sect name).left) :
    Taken s (s.fill name n) := by
  have left := Stream.fill_left current room
  refine ⟨fun tallied => tallied.fill current room, s.fill_total name n, fun short => ?_⟩
  show _ ≤ (s.input.drop n).length
  rw [List.length_drop]
  omega

theorem ready_taken (current : s.decState = name.state) (there : (s.sect name).left = 0) :
    Taken s (s.ready name name.next) := by
  refine ⟨fun tallied => tallied.ready current there, s.ready_total name _, fun short => ?_⟩
  rw [Stream.ready_left current there]
  exact short

theorem fill_all_left (s : Stream) (name : SectName) : ((s.fill name (s.sect name).left).sect name).left = 0 := by
  unfold Section.left
  rw [s.fill_pos, s.fill_size]
  omega

theorem gatherSection_taken (current : s.decState = name.state)
    (ok : gatherSection name name.next s = .ok s') : Taken s s' := by
  cases Sectioned.ok ok with
  | there there => exact ready_taken current (Nat.sub_eq_zero_of_le there)
  | enough wants enough =>
    exact (fill_taken current (Nat.le_refl _)).trans (ready_taken current (fill_all_left s name))

theorem gatherSection_part {answer : Answer} (current : s.decState = name.state)
    (error : gatherSection name name.next s = .error (answer, s')) :
    Taken s s' ∧ s.input.length < s.left := by
  have wants : (s.sect name).left ≤ s.left := by
    unfold Stream.left
    rw [current]
    cases name <;> simp only [SectName.state] <;> omega
  cases Sectioned.error error with
  | nil more none =>
    refine ⟨.refl s, ?_⟩
    rw [none]
    exact Nat.lt_of_lt_of_le (Nat.sub_pos_of_lt more) wants
  | short some short => exact ⟨fill_taken current (Nat.le_of_lt short), Nat.lt_of_lt_of_le short wants⟩

/-! ### One section after another -/

/-- Two steps, of which the first lets pass where the second waits. -/
theorem CarriesOn.chain {step next : Stream → Step Stream} (carries : CarriesOn step) (carries' : CarriesOn next)
    (passes : ∀ {s mid s'} more, step s = .ok mid → next mid = .error (.input, s') →
      step (s'.more more) = .ok (s'.more more))
    (fits : ∀ {s mid}, step s = .ok mid → s.Fits → mid.Fits)
    (stays : ∀ {s mid s'}, step s = .ok mid → next mid = .error (.input, s') → Stays s s') :
    CarriesOn fun s => step s >>= next where
  goes := by
    intro s s' more ok fit
    obtain ⟨mid, first, second⟩ := bind_ok ok
    rw [carries.goes more first fit]
    exact carries'.goes more second (fits first fit)
  stops := by
    intro s s' answer more error final
    cases first : step s with
    | ok mid =>
      rw [first] at error
      rw [carries.goes more first final.fits]
      exact carries'.stops more error ⟨final.other, fits first final.fits⟩
    | error returned =>
      rw [first] at error
      cases error
      rw [carries.stops more first final]
      rfl
  used := by
    intro s s' error
    cases first : step s with
    | ok mid =>
      rw [first] at error
      exact carries'.used error
    | error returned =>
      rw [first] at error
      cases error
      exact carries.used first
  stays := by
    intro s s' error
    cases first : step s with
    | ok mid =>
      rw [first] at error
      exact stays first error
    | error returned =>
      rw [first] at error
      cases error
      exact carries.stays first
  waits := by
    intro s s' more error fit
    cases first : step s with
    | ok mid =>
      rw [first] at error
      rw [carries.goes more first fit, passes more first error]
      exact carries'.waits more error (fits first fit)
    | error returned =>
      rw [first] at error
      cases error
      rw [carries.waits more first fit]

/-- The section of a state, in that state. -/
def sectionIn (name : SectName) (s : Stream) : Step Stream :=
  whenever (s.decState = name.state) (gatherSection name name.next) s

theorem Sectioned.decState {answer : Answer} (error : gatherSection name nstate s = .error (answer, s')) :
    s'.decState = s.decState := by
  cases Sectioned.error error with
  | nil => rfl
  | short => rfl

theorem sectionIn_carriesOn (name : SectName) : CarriesOn (sectionIn name) := by
  apply CarriesOn.ite (gatherSection_carriesOn name _) (Steady.ok fun _ _ => rfl).carriesOn fun _ _ => Iff.rfl
  rintro s s' (error | error) -
  · rw [Sectioned.decState error]
  · cases error

/-- Behind a section, the state is another one. -/
structure Behind (name : SectName) (s s' : Stream) : Prop where
  ne : s'.decState ≠ name.state
  decState : s'.decState = s.decState ∨ s.decState = name.state ∧ s'.decState = name.next
  hdrInd : s'.hdrInd = s.hdrInd
  winInd : s'.winInd = s.winInd
  taken : Taken s s'

theorem sectionIn_behind (ok : sectionIn name s = .ok s') : Behind name s s' := by
  unfold sectionIn whenever at ok
  split at ok
  · rename_i here
    have current := of_decide_eq_true here
    have taken := gatherSection_taken current ok
    cases Sectioned.ok ok with
    | there => exact ⟨name.next_ne, .inr ⟨current, rfl⟩, rfl, rfl, taken⟩
    | enough => exact ⟨name.next_ne, .inr ⟨current, rfl⟩, rfl, rfl, taken⟩
  · rename_i elsewhere
    cases ok
    exact ⟨of_decide_eq_false (Bool.eq_false_iff.mpr elsewhere), .inl rfl, rfl, rfl, .refl s⟩

theorem Behind.fits (behind : Behind name s s') (fits : s.Fits) : s'.Fits := by
  intro within
  have before : s.decState ∈ DecState.sections := by
    rcases behind.decState with same | ⟨current, -⟩
    · exact same ▸ within
    · exact current ▸ name.state_mem
  obtain ⟨tallied, short⟩ := fits before
  exact ⟨behind.taken.tallied tallied, behind.taken.shorts short⟩

/-- Behind the first section are the others. -/
theorem Behind.first (behind : Behind .data s s') (within : s.decState ∈ DecState.sections) :
    s'.decState = .inst ∨ s'.decState = .addr := by
  rcases behind.decState with same | ⟨-, next⟩
  · simp only [DecState.sections, List.mem_cons, List.not_mem_nil, or_false] at within
    rcases within with data | last
    · exact absurd (same.trans data) behind.ne
    · rw [same]
      exact last
  · exact .inl next

/-- Behind the second is the last one. -/
theorem Behind.last (behind : Behind .inst s s') (within : s.decState = .inst ∨ s.decState = .addr) :
    s'.decState = .addr := by
  rcases behind.decState with same | ⟨-, next⟩
  · rcases within with inst | addr
    · exact absurd (same.trans inst) behind.ne
    · exact same.trans addr
  · exact next

/-- In a wait, the state is that of the section, and the input was not enough. -/
theorem sectionIn_error {answer : Answer} (error : sectionIn name s = .error (answer, s')) :
    answer = .input ∧ s'.decState = s.decState ∧ Taken s s' ∧ s.input.length < s.left := by
  unfold sectionIn whenever at error
  split at error
  · rename_i here
    obtain ⟨taken, short⟩ := gatherSection_part (of_decide_eq_true here) error
    have decState := Sectioned.decState error
    cases Sectioned.error error with
    | nil => exact ⟨rfl, decState, taken, short⟩
    | short => exact ⟨rfl, decState, taken, short⟩
  · cases error

theorem sectionIn_passes (elsewhere : s.decState ≠ name.state) : sectionIn name s = .ok s := by
  unfold sectionIn whenever
  rw [if_neg (by simpa using elsewhere)]

/-- The sections behind `data`. -/
def lastSections (s : Stream) : Step Stream := sectionIn .inst s >>= gatherSection .addr .emit

/-- The sections that are left. -/
def gatherSections (s : Stream) : Step Stream := sectionIn .data s >>= lastSections

theorem lastSections_error {answer : Answer} (error : lastSections s = .error (answer, s')) :
    answer = .input ∧ (s'.decState = s.decState ∨ s.decState = .inst ∧ s'.decState = .addr) ∧
      s'.hdrInd = s.hdrInd ∧ s'.winInd = s.winInd := by
  unfold lastSections at error
  cases first : sectionIn .inst s with
  | ok mid =>
    rw [first] at error
    have behind := sectionIn_behind first
    replace error : gatherSection .addr .emit mid = .error (answer, s') := error
    rw [Sectioned.decState error]
    cases Sectioned.error error with
    | nil => exact ⟨rfl, behind.decState, behind.hdrInd, behind.winInd⟩
    | short => exact ⟨rfl, behind.decState, behind.hdrInd, behind.winInd⟩
  | error returned =>
    rw [first] at error
    cases error
    obtain ⟨rfl, decState, -⟩ := sectionIn_error first
    obtain ⟨hdrInd, winInd, -⟩ := (sectionIn_carriesOn .inst).stays first
    exact ⟨rfl, .inl decState, hdrInd, winInd⟩

theorem stays_of_behind {mid : Stream} (behind : Behind name s mid)
    (later : s'.decState = mid.decState ∨ mid.decState ∈ DecState.sections ∧ s'.decState ∈ DecState.sections)
    (within : name.next ∈ DecState.sections) (hdrInd : s'.hdrInd = mid.hdrInd) (winInd : s'.winInd = mid.winInd) :
    Stays s s' := by
  refine ⟨hdrInd.trans behind.hdrInd, winInd.trans behind.winInd, ?_⟩
  rcases behind.decState with same | ⟨before, next⟩
  · rw [same] at later
    exact later
  · rcases later with same' | ⟨-, after⟩
    · exact .inr ⟨before ▸ name.state_mem, by rw [same', next]; exact within⟩
    · exact .inr ⟨before ▸ name.state_mem, after⟩

theorem lastSections_carriesOn : CarriesOn lastSections := by
  apply (sectionIn_carriesOn .inst).chain (gatherSection_carriesOn .addr .emit)
  · intro s mid s' more first second
    apply sectionIn_passes
    rw [Stream.more, Sectioned.decState second]
    exact (sectionIn_behind first).ne
  · intro s mid first fits
    exact (sectionIn_behind first).fits fits
  · intro s mid s' first second
    obtain ⟨hdrInd, winInd, -⟩ := (gatherSection_carriesOn .addr .emit).stays second
    exact stays_of_behind (sectionIn_behind first) (.inl (Sectioned.decState second)) SectName.addr.state_mem hdrInd winInd

theorem gatherSections_carriesOn : CarriesOn gatherSections := by
  apply (sectionIn_carriesOn .data).chain lastSections_carriesOn
  · intro s mid s' more first second
    apply sectionIn_passes
    rw [Stream.more]
    rcases (lastSections_error second).2.1 with same | ⟨-, behind⟩
    · rw [same]
      exact (sectionIn_behind first).ne
    · rw [behind]
      decide
  · intro s mid first fits
    exact (sectionIn_behind first).fits fits
  · intro s mid s' first second
    obtain ⟨-, decState, hdrInd, winInd⟩ := lastSections_error second
    refine stays_of_behind (sectionIn_behind first) ?_ SectName.inst.state_mem hdrInd winInd
    rcases decState with same | ⟨before, behind⟩
    · exact .inl same
    · exact .inr ⟨before ▸ SectName.inst.state_mem, behind ▸ SectName.addr.state_mem⟩

/-! ### Where the sections are kept -/

theorem whenever_eq {cond : Bool} (defined : ¬Undefined (whenever cond (decodeSection name copy nstate) s)) :
    whenever cond (decodeSection name copy nstate) s = whenever cond (gatherSection name nstate) s := by
  cases cond with
  | false => rfl
  | true => exact decodeSection_eq defined

theorem decodeSections_eq (defined : ¬Undefined (decodeSections copy s)) : decodeSections copy s = gatherSections s := by
  have first := whenever_eq (not_undefined_of_bind defined)
  unfold decodeSections at defined ⊢
  rw [first] at defined ⊢
  show _ = whenever (s.decState = .data) (gatherSection .data .inst) s >>= lastSections
  cases mid : whenever (s.decState = .data) (gatherSection .data .inst) s with
  | error returned => rfl
  | ok s1 =>
    rw [mid] at defined
    have second := whenever_eq (not_undefined_of_bind defined)
    show (whenever (s1.decState = .inst) (decodeSection .inst copy .addr) s1 >>= decodeSection .addr copy .emit) =
      (whenever (s1.decState = .inst) (gatherSection .inst .addr) s1 >>= gatherSection .addr .emit)
    cases mid' : whenever (s1.decState = .inst) (gatherSection .inst .addr) s1 with
    | error returned => rw [second, mid']; rfl
    | ok s2 =>
      rw [second, mid']
      refine decodeSection_eq fun undefined => defined ?_
      show Undefined (whenever (s1.decState = .inst) (decodeSection .inst copy .addr) s1 >>= decodeSection .addr copy .emit)
      rw [second, mid']
      exact undefined

theorem le_roundBlksize {sz : Nat} (short : sz + allocsize ≤ 2 ^ 32) : sz ≤ roundBlksize sz allocsize := by
  have mod : sz &&& (allocsize - 1) ≤ allocsize - 1 := Nat.and_le_right
  have size : allocsize = 16384 := rfl
  unfold roundBlksize
  split
  · rw [usize, Nat.mod_eq_of_lt (by omega)]
    exact Nat.le_add_right _ _
  · exact Nat.le_refl _

theorem Stream.Short.size (short : s.Short) (name : SectName) : (s.sect name).size + allocsize ≤ 2 ^ 32 := by
  unfold Short total at short
  cases name <;> omega

/-- There is memory for the sections: a buffer for each, or the input. -/
structure Stream.Ample (s : Stream) (copy : Bool) : Prop where
  short : s.Short
  there : copy = false → s.left ≤ s.input.length

theorem Stream.Ample.holds (ample : s.Ample copy) (current : s.decState = name.state) : s.holds name copy = true := by
  have part : (s.sect name).left ≤ s.left := by
    unfold left
    rw [current]
    cases name <;> simp only [SectName.state] <;> omega
  unfold Stream.holds
  dsimp only
  split
  · rename_i whole
    have there := ample.there whole.1
    have begins := whole.2
    unfold Section.left at part
    exact decide_eq_true (by omega)
  · exact decide_eq_true (.inr (le_roundBlksize (ample.short.size name)))

theorem Stream.Ample.behind (ample : s.Ample copy) (behind : Behind name s s') : s'.Ample copy :=
  ⟨behind.taken.shorts ample.short, fun whole => behind.taken.short (ample.there whole)⟩

theorem decodeSection_ample (ample : s.Ample copy) (current : s.decState = name.state) :
    decodeSection name copy nstate s = gatherSection name nstate s := by
  unfold decodeSection gatherSection
  rw [if_pos (ample.holds current)]

theorem whenever_ample (name : SectName) (ample : s.Ample copy) :
    whenever (s.decState = name.state) (decodeSection name copy name.next) s = sectionIn name s := by
  unfold sectionIn whenever
  split
  · rename_i here
    exact decodeSection_ample ample (of_decide_eq_true here)
  · rfl

theorem lastSections_ample (ample : s.Ample copy) (within : s.decState = .inst ∨ s.decState = .addr) :
    whenever (s.decState = .inst) (decodeSection .inst copy .addr) s >>= decodeSection .addr copy .emit =
      lastSections s := by
  have first : whenever (s.decState = .inst) (decodeSection .inst copy .addr) s = sectionIn .inst s := whenever_ample .inst ample
  unfold lastSections
  rw [first]
  cases taken : sectionIn .inst s with
  | error returned => rfl
  | ok mid =>
    have behind := sectionIn_behind taken
    exact decodeSection_ample (ample.behind behind) (behind.last within)

theorem decodeSections_ample (ample : s.Ample copy) (within : s.decState ∈ DecState.sections) :
    decodeSections copy s = gatherSections s := by
  have first : whenever (s.decState = .data) (decodeSection .data copy .inst) s = sectionIn .data s := whenever_ample .data ample
  unfold decodeSections gatherSections
  rw [first]
  cases taken : sectionIn .data s with
  | error returned => rfl
  | ok mid =>
    have behind := sectionIn_behind taken
    exact lastSections_ample (ample.behind behind) (behind.first within)

/-- The sections can wait, and that is all. -/
theorem gatherSections_waits {answer : Answer} (error : gatherSections s = .error (answer, s')) :
    answer = .input := by
  unfold gatherSections at error
  cases first : sectionIn .data s with
  | error returned =>
    rw [first] at error
    cases error
    exact (sectionIn_error first).1
  | ok s1 =>
    rw [first] at error
    exact (lastSections_error error).1

/-- What a wait leaves true: the input was not enough. -/
structure Part (s s' : Stream) : Prop where
  taken : Taken s s'
  short : s.input.length < s.left

theorem Part.behind {mid : Stream} (behind : Behind name s mid) (part : Part mid s') : Part s s' := by
  refine ⟨behind.taken.trans part.taken, ?_⟩
  by_contra enough
  exact Nat.not_lt.mpr (behind.taken.short (Nat.not_lt.mp enough)) part.short

theorem lastSections_part (within : s.decState = .inst ∨ s.decState = .addr) {answer : Answer}
    (error : lastSections s = .error (answer, s')) : Part s s' := by
  unfold lastSections at error
  cases first : sectionIn .inst s with
  | error returned =>
    rw [first] at error
    cases error
    obtain ⟨-, -, taken, short⟩ := sectionIn_error first
    exact ⟨taken, short⟩
  | ok mid =>
    rw [first] at error
    have behind := sectionIn_behind first
    obtain ⟨taken, short⟩ := gatherSection_part (show mid.decState = SectName.addr.state from behind.last within) error
    exact Part.behind behind ⟨taken, short⟩

/-- The sections wait when they are not all there. -/
theorem gatherSections_part (within : s.decState ∈ DecState.sections) {answer : Answer}
    (error : gatherSections s = .error (answer, s')) : Part s s' := by
  unfold gatherSections at error
  cases first : sectionIn .data s with
  | error returned =>
    rw [first] at error
    cases error
    obtain ⟨-, -, taken, short⟩ := sectionIn_error first
    exact ⟨taken, short⟩
  | ok mid =>
    rw [first] at error
    have behind := sectionIn_behind first
    exact Part.behind behind (lastSections_part (behind.first within) error)

/-- Where the lengths fit, the decoder copies when the sections are not all there. -/
theorem copies_iff (tallied : s.Tallied) (small : s.total < 2 ^ 32) : s.copies = true ↔ s.input.length < s.left := by
  have part : s.left ≤ s.total := by
    unfold Stream.left Stream.total Section.left
    split <;> omega
  obtain ⟨winbytes, sum⟩ := tallied
  unfold Stream.copies
  rw [show usize ((s.sect .inst).size + (s.sect .addr).size + (s.sect .data).size) = s.total from Nat.mod_eq_of_lt small]
  have more : usize (s.total + 2 ^ 32 - s.winbytes) = s.left := by
    unfold usize at sum ⊢
    omega
  simp only [more, decide_eq_true_eq, ne_eq]
  omega

/-- What takes the sections is there for them. -/
theorem Stream.Tallied.ample (tallied : s.Tallied) (short : s.Short) : s.Ample s.copies := by
  have size : allocsize = 16384 := rfl
  have small : s.total < 2 ^ 32 := by
    unfold Short at short
    omega
  refine ⟨short, fun whole => ?_⟩
  have enough := mt (copies_iff tallied small).mpr
  rw [whole] at enough
  exact Nat.not_lt.mp (enough Bool.false_ne_true)

theorem takeSections_fits (tallied : s.Tallied) (short : s.Short) (within : s.decState ∈ DecState.sections) :
    takeSections s = (gatherSections s >>= setupBuffers) := by
  unfold takeSections
  rw [decodeSections_ample (tallied.ample short) within]

theorem setupBuffers_steady : Steady setupBuffers := by
  have mixed : Steady fun s => .error (.undefined, s) := .returns (fun _ _ => rfl) (fun _ _ => rfl) fun _ => nofun
  apply Steady.ite _ (.ok fun _ _ => rfl) fun _ _ => Iff.rfl
  apply Steady.ite (.refuse _ _) _ fun _ _ => Iff.rfl
  exact .ite mixed (.ok fun _ _ => rfl) fun _ _ => Iff.rfl

/-- Copying does not matter, once it is known that nothing is undefined. -/
theorem takeSections_eq (defined : ¬Undefined (takeSections s)) :
    takeSections s = (gatherSections s >>= setupBuffers) := by
  have sections := not_undefined_of_bind (f := setupBuffers) defined
  unfold takeSections
  rw [decodeSections_eq sections]

theorem defined_of_error {answer : Answer} {step : Step Stream} (error : step = .error (answer, s'))
    (other : answer ≠ .undefined) : ¬Undefined step := by
  rintro ⟨s, undefined⟩
  rw [error] at undefined
  cases undefined
  exact other rfl

theorem sectionsCase_within (within : s.decState ∈ DecState.sections) : sectionsCase s = takeSections s := if_pos within

theorem sectionsCase_carriesOn : CarriesOn sectionsCase := by
  have gathers : CarriesOn fun s => gatherSections s >>= setupBuffers :=
    gatherSections_carriesOn.bind setupBuffers_steady
  have refused {s : Stream} (outside : s.decState ∉ DecState.sections) :
      sectionsCase s = refuse .invalidInput "internal error" s := if_neg outside
  have fitting {s : Stream} (fits : s.Fits) (within : s.decState ∈ DecState.sections) :
      sectionsCase s = (gatherSections s >>= setupBuffers) := by
    obtain ⟨tallied, short⟩ := fits within
    rw [sectionsCase_within within, takeSections_fits tallied short within]
  have waiting {s s' : Stream} (error : sectionsCase s = .error (.input, s')) :
      (gatherSections s >>= setupBuffers) = .error (.input, s') := by
    by_cases within : s.decState ∈ DecState.sections
    · rw [sectionsCase_within within] at error
      rw [← takeSections_eq (defined_of_error error nofun)]
      exact error
    · rw [refused within] at error
      cases error
  constructor
  · intro s s' more ok fits
    by_cases within : s.decState ∈ DecState.sections
    · rw [fitting fits within] at ok
      rw [fitting (s := s.more more) (fits.more more) within]
      exact gathers.goes more ok fits
    · rw [refused within] at ok
      cases ok
  · intro s s' answer more error final
    by_cases within : s.decState ∈ DecState.sections
    · rw [fitting final.fits within] at error
      rw [fitting (s := s.more more) (final.fits.more more) within]
      exact gathers.stops more error final
    · rw [refused within] at error
      cases error
      exact refused (s := s.more more) within
  · exact fun error => gathers.used (waiting error)
  · exact fun error => gathers.stays (waiting error)
  · intro s s' more error fits
    have waited := waiting error
    by_cases within : s.decState ∈ DecState.sections
    · obtain ⟨tallied, short⟩ := fits within
      have gathered : gatherSections s = .error (.input, s') := by
        cases sections : gatherSections s with
        | error returned =>
          rw [sections] at waited
          exact waited
        | ok s1 =>
          rw [sections] at waited
          exact absurd waited setupBuffers_steady.never
      obtain ⟨taken, -⟩ := gatherSections_part within gathered
      have within' : s'.decState ∈ DecState.sections := by
        rcases (gatherSections_carriesOn.stays gathered).decState with same | ⟨-, within'⟩
        · exact same ▸ within
        · exact within'
      have fits' : s'.Fits := fun _ => ⟨taken.tallied tallied, taken.shorts short⟩
      rw [fitting (s := s.more more) (fits.more more) within, fitting (s := s'.more more) (fits'.more more) within']
      exact gathers.waits more waited fits
    · rw [refused within] at error
      cases error

end Sections

theorem emitCase_steady : Steady emitCase := by
  have placed (s : Stream) (more : Bytes) : (s.more more).placed = s.placed.more more := by
    unfold Stream.placed
    rw [show (s.more more).copiesSource = s.copiesSource from rfl]
    split <;> rfl
  have body (s : Stream) (more : Bytes) : (s.more more).placed.body = s.placed.body := by
    rw [placed]
    rfl
  have returns : Steady fun s => .error ((decodeEmit s.placed.body).1,
      if (decodeEmit s.placed.body).1 = .output then finishWindow { s.placed with body := (decodeEmit s.placed.body).2 }
      else { s.placed with body := (decodeEmit s.placed.body).2 }) := by
    apply Steady.returns
    · intro s more
      rw [body]
    · intro s more
      rw [body, placed]
      split <;> rfl
    · intro s input
      have emitted := decodeEmit_emitted s.placed.body
      rw [input] at emitted
      cases emitted with
      | stopped stopped => cases stopped
  exact returns

theorem finishCase_steady : Steady finishCase := .returns (fun _ _ => rfl) (fun _ _ => rfl) fun _ => nofun

end Cases

end OpenDelta.Vcdiff
