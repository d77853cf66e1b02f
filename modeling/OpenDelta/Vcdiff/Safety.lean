import OpenDelta.Vcdiff.Room

/-!
# Inside the buffers, in every run

The header of a window leaves the decoder as `window_defined` wants it, and every
return leaves it so that it can be called again (`Safe`). In a run whose windows are
tame nothing is therefore read or written outside of a buffer, however the delta is
cut (`serve_defined`). A window that copies from the target is not: behind it there
are two buffers, of which one is freed when a larger one is wanted.
-/

namespace OpenDelta.Vcdiff
open ByteFile

/-- The states in which the position is behind the copy window. -/
def DecState.behindCpyLen : List DecState :=
  [.cpyOff, .encLen, .tgtLen, .delInd, .dataLen, .instLen, .addrLen, .ckSum, .data, .inst, .addr]

/-- The states in which the end of the window is known. -/
def DecState.behindTgtLen : List DecState :=
  [.delInd, .dataLen, .instLen, .addrLen, .ckSum, .data, .inst, .addr]

/-- The states in which a window is put out. -/
def DecState.outward : List DecState := [.emit, .finish]

/-- What the header of a window has to leave, as far as it has been read. -/
structure Measured (state : DecState) (b : Body) : Prop where
  position : state ∈ DecState.behindCpyLen → b.position = b.cpylen
  maxpos : state ∈ DecState.behindTgtLen → b.maxpos = b.cpylen + b.tgtlen
  small : state ∈ DecState.behindTgtLen → b.tgtlen ≤ hardmaxwinsize

/-- A stream that the decoder can be called with. -/
structure Stream.Safe (s : Stream) : Prop where
  through1 : s.decState ≠ .emit → s.body.current1.type = .noop
  through2 : s.decState ≠ .emit → s.body.current2.type = .noop
  out : s.decState ≠ .emit → s.body.out = []
  measured : Measured s.decState s.body
  inRoom : s.decState = .emit → s.body.InRoom
  single : s.buffers.Single
  sourced : s.decState ∈ DecState.outward → s.copiesTarget = false

/-- The sections are short enough to be taken and make a window that is tame, and that
does not copy from the target. -/
structure Stream.TameSections (s : Stream) : Prop where
  short : s.Short
  sourced : s.copiesTarget = false
  tame : ∀ {s'}, takeSections s = .ok s' → s'.body.Tame

/-- What a call needs. -/
structure Stream.Guarded (s : Stream) : Prop where
  safe : s.Safe
  tallied : s.decState ∈ DecState.sections → s.Tallied
  sections : s.decState ∈ DecState.sections → s.TameSections

/-- What a call leaves: once it is served, the decoder can be called again. -/
structure Returned (answer : Answer) (s : Stream) : Prop where
  defined : s.Headed → answer ≠ .undefined
  safe : answer.Goes → ∀ source out, (served source answer s out).1.Safe

section Safe

variable {s s' : Stream} {nstate : DecState}

theorem Returned.fails (failure : Failure) (s : Stream) : Returned (.fails failure) s :=
  ⟨fun _ => nofun, fun goes => goes.elim⟩

theorem Measured.none {state : DecState} {b : Body} (before : state ∉ DecState.behindCpyLen)
    (before' : state ∉ DecState.behindTgtLen) : Measured state b :=
  ⟨fun within => absurd within before, fun within => absurd within before', fun within => absurd within before'⟩

theorem Stream.Safe.same (safe : s.Safe) (decState : s'.decState = s.decState) (body : s'.body = s.body)
    (buffers : s'.buffers = s.buffers) (sourced : s.decState ∈ DecState.outward → s'.copiesTarget = s.copiesTarget) :
    s'.Safe := by
  obtain ⟨through1, through2, out, measured, inRoom, single, sourced'⟩ := safe
  constructor
  case sourced =>
    intro outward
    rw [decState] at outward
    rw [sourced outward]
    exact sourced' outward
  case single => exact buffers ▸ single
  all_goals
    rw [decState, body]
    assumption

/-- A case of the headers. -/
theorem Leads.safe (leads : Leads nstate s s') (safe : s.Safe) (before : s.decState ≠ .emit)
    (behind : nstate ∉ DecState.outward) (measured : Measured nstate s'.body) : s'.Safe where
  through1 _ := by
    rw [leads.current1]
    exact safe.through1 before
  through2 _ := by
    rw [leads.current2]
    exact safe.through2 before
  out _ := by
    rw [leads.out]
    exact safe.out before
  measured := leads.decState.symm ▸ measured
  inRoom emit := absurd (leads.decState ▸ emit ▸ List.mem_cons_self) behind
  single := leads.buffers.symm ▸ safe.single
  sourced outward := absurd (leads.decState ▸ outward) behind

theorem Stream.Safe.guarded (safe : s.Safe) (outside : s.decState ∉ DecState.sections) : s.Guarded :=
  ⟨safe, fun within => absurd within outside, fun within => absurd within outside⟩

/-! ## The headers -/

/-- What a case leaves of a window when it does not fail. -/
def Leaves (s : Stream) (answer : Answer) (s' : Stream) : Prop := answer.Goes → s'.body = s.body

/-- A reader does not touch the window. -/
def Aside (take : Stream → Step (Nat × Stream)) : Prop := ∀ s, Meets (fun taken => taken.2.body = s.body) (Leaves s) (take s)

theorem aside_byte : Aside takeByte := by
  intro s
  unfold takeByte
  split
  · exact fun _ => rfl
  · rfl

theorem aside_size : Aside takeSize := by
  intro s
  unfold takeSize
  split
  · rfl
  · exact fun _ => rfl
  · exact fun goes => goes.elim

theorem aside_offset : Aside takeOffset := by
  intro s
  unfold takeOffset
  split
  · rfl
  · exact fun _ => rfl
  · exact fun goes => goes.elim

theorem takeCase_aside {take : Stream → Step (Nat × Stream)} {expr : Bool} {store : Stream → Nat → Stream}
    {Q : Body → Prop} (aside : Aside take) (stored : ∀ t v, t.body = s.body → Q (store t v).body) (kept : Q s.body) :
    Meets (fun s' => Q s'.body) (Leaves s) (takeCase take expr store nstate s) := by
  unfold takeCase
  split
  · apply (aside s).bind
    rintro ⟨v, mid⟩ same
    exact stored mid v same
  · exact kept

theorem leaves_fails (failure : Failure) (t : Stream) : Leaves s (.fails failure) t := fun goes => goes.elim

theorem cpyLenCase_position : Meets (fun s' => s'.body.position = s'.body.cpylen) (Leaves s) (cpyLenCase s) := by
  refine Meets.bind (takeCase_aside (Q := fun _ => True) aside_size (fun _ _ _ => trivial) trivial) ?_
  intro mid _
  rfl

theorem cpyOffCase_body : Meets (fun s' => s'.body = s.body) (Leaves s) (cpyOffCase s) := by
  refine Meets.bind (takeCase_aside (Q := fun b => b = s.body) aside_offset (fun _ _ same => same) rfl) ?_
  intro mid same
  exact Meets.unless leaves_fails (Meets.unless leaves_fails same)

theorem encLenCase_body : Meets (fun s' => s'.body = s.body) (Leaves s) (encLenCase s) :=
  takeCase_aside (Q := fun b => b = s.body) aside_size (fun _ _ same => same) rfl

/-- The end of the window is set behind its start. -/
structure Ended (b b' : Body) : Prop where
  position : b'.position = b.position
  cpylen : b'.cpylen = b.cpylen
  maxpos : b'.maxpos = b'.cpylen + b'.tgtlen
  small : b'.tgtlen ≤ hardmaxwinsize

theorem tgtLenCase_ended : Meets (fun s' => Ended s.body s'.body) (Leaves s) (tgtLenCase s) := by
  have stored (t : Stream) (tgtlen : Nat) (same : t.body = s.body) :
      ({ t.body with tgtlen } : Body).position = s.body.position ∧ ({ t.body with tgtlen } : Body).cpylen = s.body.cpylen := by
    rw [same]
    exact ⟨rfl, rfl⟩
  refine Meets.bind (takeCase_aside (Q := fun b => b.position = s.body.position ∧ b.cpylen = s.body.cpylen) aside_size
    stored ⟨rfl, rfl⟩) ?_
  rintro mid ⟨position, cpylen⟩
  apply Meets.unless leaves_fails
  split
  · exact leaves_fails _ _
  · rename_i small
    exact ⟨position, cpylen, rfl, Nat.le_of_not_lt small⟩

theorem delIndCase_body : Meets (fun s' => s'.body = s.body) (Leaves s) (delIndCase s) := by
  refine Meets.bind (takeCase_aside (Q := fun b => b = s.body) aside_byte (fun _ _ same => same) rfl) ?_
  intro mid same
  exact Meets.unless leaves_fails (Meets.unless leaves_fails same)

theorem sectLenCase_body {name : SectName} : Meets (fun s' => s'.body = s.body) (Leaves s) (sectLenCase name nstate s) :=
  takeCase_aside (Q := fun b => b = s.body) aside_size (fun _ _ same => same) rfl

theorem ckSumCase_body : Meets (fun _ => False) (Leaves s) (ckSumCase s) := by
  have read : Meets (fun s' => s'.body = s.body) (Leaves s) (whenever s.checksummed readCksum s) := by
    unfold whenever
    split
    · unfold readCksum takeBytes
      dsimp only
      split
      · exact fun _ => rfl
      · rfl
    · rfl
  apply read.bind
  intro mid same
  unfold ckSumCheck
  split
  · exact leaves_fails _ _
  · exact fun _ => same

/-! ## The sections -/

/-- Taking the sections leaves the window, its buffers and its indicator as they are. -/
structure Beside (s s' : Stream) : Prop where
  body : s'.body = s.body
  buffers : s'.buffers = s.buffers
  winInd : s'.winInd = s.winInd

theorem Beside.refl (s : Stream) : Beside s s := ⟨rfl, rfl, rfl⟩

theorem Beside.trans {mid : Stream} (first : Beside s mid) (second : Beside mid s') : Beside s s' where
  body := second.body.trans first.body
  buffers := second.buffers.trans first.buffers
  winInd := second.winInd.trans first.winInd

theorem gatherSection_beside {name : SectName} :
    Meets (Beside s) (fun _ => Beside s) (gatherSection name nstate s) := by
  unfold gatherSection takeSection
  split
  · exact ⟨rfl, rfl, rfl⟩
  split
  · exact .refl s
  dsimp only
  split
  · exact ⟨rfl, rfl, rfl⟩
  · exact ⟨rfl, rfl, rfl⟩

theorem gatherSections_beside : Meets (Beside s) (fun _ => Beside s) (gatherSections s) := by
  have part (name : SectName) (mid : Stream) (beside : Beside s mid) :
      Meets (Beside s) (fun _ => Beside s) (sectionIn name mid) := by
    unfold sectionIn whenever
    split
    · have later : Meets (Beside mid) (fun _ => Beside mid) (gatherSection name name.next mid) := gatherSection_beside
      exact (later.mono fun _ => beside.trans).weaken fun _ _ => beside.trans
    · exact beside
  unfold gatherSections lastSections
  refine (part .data s (.refl s)).bind fun mid beside => ?_
  refine (part .inst mid beside).bind fun mid beside => ?_
  have later : Meets (Beside mid) (fun _ => Beside mid) (gatherSection .addr .emit mid) := gatherSection_beside
  exact (later.mono fun _ => beside.trans).weaken fun _ _ => beside.trans

theorem Stream.Safe.opened (safe : s.Safe) (within : s.decState ∈ DecState.sections) : s.body.Opened := by
  have outside : s.decState ≠ .emit := fun emit => absurd (emit ▸ within) (by decide)
  have behind : s.decState ∈ DecState.behindCpyLen ∧ s.decState ∈ DecState.behindTgtLen := by
    revert within
    generalize s.decState = state
    cases state <;> decide
  exact ⟨safe.through1 outside, safe.through2 outside, safe.out outside, safe.measured.position behind.1,
    safe.measured.maxpos behind.2, safe.measured.small behind.2⟩

/-- A wait for the rest of the sections. -/
theorem Beside.waits (beside : Beside s s') (safe : s.Safe) (within : s.decState ∈ DecState.sections)
    (stays : s'.decState ∈ DecState.sections) : s'.Safe := by
  have opened := safe.opened within
  have other : s'.decState ≠ .emit ∧ s'.decState ∉ DecState.outward := by
    revert stays
    generalize s'.decState = state
    cases state <;> decide
  rw [← beside.body] at opened
  obtain ⟨through1, through2, out, position, maxpos, small⟩ := opened
  exact ⟨fun _ => through1, fun _ => through2, fun _ => out, ⟨fun _ => position, fun _ => maxpos, fun _ => small⟩,
    fun emit => absurd emit other.1, beside.buffers.symm ▸ safe.single, fun outward => absurd outward other.2⟩

/-- A window that has been set up. -/
theorem Furnished.safe {buffers : Buffers} (furnished : Furnished s buffers) (opened : s.body.Opened)
    (tame : (s.setUp buffers).body.Tame) (emit : s.decState = .emit) (sourced : s.copiesTarget = false) :
    (s.setUp buffers).Safe where
  through1 outside := absurd emit outside
  through2 outside := absurd emit outside
  out outside := absurd emit outside
  measured := by
    show Measured s.decState _
    rw [emit]
    exact .none (by decide) (by decide)
  inRoom _ := opened.inRoom furnished tame
  single := furnished.single
  sourced _ := sourced

theorem takeSections_meets (guarded : s.Guarded) (within : s.decState ∈ DecState.sections) :
    Meets Stream.Guarded Returned (takeSections s) := by
  obtain ⟨short, sourced, tame⟩ := guarded.sections within
  have opened := guarded.safe.opened within
  have eq := takeSections_fits (guarded.tallied within) short within
  cases sections : gatherSections s with
  | error returned =>
    obtain ⟨answer, s'⟩ := returned
    have beside : Beside s s' := gatherSections_beside.error sections
    obtain rfl := gatherSections_waits sections
    have stays : s'.decState ∈ DecState.sections := by
      rcases (gatherSections_carriesOn.stays sections).decState with same | ⟨-, behind⟩
      · exact same ▸ within
      · exact behind
    rw [eq, sections]
    exact ⟨fun _ => nofun, fun _ _ _ => beside.waits guarded.safe within stays⟩
  | ok s1 =>
    have beside : Beside s s1 := gatherSections_beside.ok sections
    have set : takeSections s = setupBuffers s1 := by
      rw [eq, sections]
      rfl
    have single : s1.buffers.Single := beside.buffers.symm ▸ guarded.safe.single
    have sourced1 : s1.copiesTarget = false := by
      rw [Stream.copiesTarget, beside.winInd]
      exact sourced
    rw [← beside.body] at opened
    have meets := setupBuffers_meets single opened.small
    rw [set]
    cases buffers : setupBuffers s1 with
    | error returned =>
      obtain ⟨answer, s'⟩ := returned
      obtain ⟨failure, rfl⟩ := meets.error buffers
      exact .fails failure s'
    | ok s' =>
      have taken : takeSections s = .ok s' := set.trans buffers
      have emit : s'.decState = .emit := sectionsCase_ok (by rw [sectionsCase_within within, taken])
      obtain ⟨buffers, rfl, furnished⟩ := meets.ok buffers
      have safe := furnished.safe opened (tame taken) emit sourced1
      exact safe.guarded (by rw [emit]; decide)

/-! ## The window -/

/-- A window is put out behind its last instruction. -/
theorem decodeEmit_through (b : Body) (output : (decodeEmit b).1 = .output) :
    (decodeEmit b).2.current1.type = .noop ∧ (decodeEmit b).2.current2.type = .noop := by
  have comes : Comes emitTurn b (decodeEmit b) := comes_untilDone b
  have kept : (decodeEmit b).1 = .output →
      (decodeEmit b).2.current1.type = .noop ∧ (decodeEmit b).2.current2.type = .noop := by
    refine @Comes.invariant _ _ _ _ _ (fun _ => True)
      (fun returned => returned.1 = .output → returned.2.current1.type = .noop ∧ returned.2.current2.type = .noop)
      comes trivial ?_
    intro b _
    unfold emitTurn
    split
    · rename_i both
      split
      · exact fun _ => both
      split
      · trivial
      · exact nofun
    split
    · split
      · trivial
      · rename_i stops
        rintro rfl
        cases outputHalfinst_stopped stops
    · split
      · trivial
      · rename_i stops
        rintro rfl
        cases outputHalfinst_stopped stops
  exact kept output

theorem Stream.placed_copiesTarget (s : Stream) : s.placed.copiesTarget = s.copiesTarget := by
  unfold placed
  split <;> rfl

theorem Stream.placed_buffers (s : Stream) : s.placed.buffers = s.buffers := by
  unfold placed
  split <;> rfl

theorem emitCase_meets (safe : s.Safe) (emit : s.decState = .emit) : Meets Stream.Guarded Returned (emitCase s) := by
  have placed : s.placed.decState = .emit := by
    unfold Stream.placed
    split <;> exact emit
  obtain ⟨defined, stays⟩ := decodeEmit_inRoom (s.placed_inRoom (safe.inRoom emit))
  have emitted := decodeEmit_emitted s.placed.body
  have sourced : s.placed.copiesTarget = false := by
    rw [s.placed_copiesTarget]
    exact safe.sourced (by rw [emit]; decide)
  have single : s.placed.buffers.Single := by
    rw [s.placed_buffers]
    exact safe.single
  unfold emitCase
  dsimp only
  refine ⟨fun _ => defined, fun goes source out => ?_⟩
  generalize answer_eq : (decodeEmit s.placed.body).1 = answer at emitted goes ⊢
  cases emitted with
  | output =>
    obtain ⟨through1, through2⟩ := decodeEmit_through s.placed.body answer_eq
    exact ⟨fun _ => through1, fun _ => through2, fun _ => rfl,
      .none (show DecState.finish ∉ DecState.behindCpyLen by decide) (show DecState.finish ∉ DecState.behindTgtLen by decide),
      nofun, single, fun _ => sourced⟩
  | stopped stopped =>
    cases stopped with
    | getSrcBlk =>
      have other : s.placed.decState ∉ DecState.behindCpyLen ∧ s.placed.decState ∉ DecState.behindTgtLen := by
        rw [placed]
        decide
      exact ⟨absurd placed, absurd placed, absurd placed, .none other.1 other.2, fun _ => stays.src rfl, single,
        fun _ => sourced⟩
    | undefined => exact goes.elim
    | fails failure => exact goes.elim

theorem finishCase_meets (safe : s.Safe) (finish : s.decState = .finish) :
    Meets Stream.Guarded Returned (finishCase s) := by
  have outside : s.decState ≠ .emit := by
    rw [finish]
    decide
  have sourced : s.copiesTarget = false := safe.sourced (by rw [finish]; decide)
  have single : (if s.copiesTarget then s.buffers.swap else s.buffers).Single := by
    rw [sourced]
    exact safe.single
  exact ⟨fun _ => nofun, fun _ _ _ => ⟨fun _ => safe.through1 outside, fun _ => safe.through2 outside,
    fun _ => safe.out outside,
    .none (show DecState.winInd ∉ DecState.behindCpyLen by decide) (show DecState.winInd ∉ DecState.behindTgtLen by decide),
    nofun, single, fun outward => absurd outward (show DecState.winInd ∉ DecState.outward by decide)⟩⟩

end Safe

/-! ## All cases -/

section Cases

variable {applyTableEncoding : Nat → Nat → Bytes → Except Failure (List Dinst)} {s : Stream} {state nstate : DecState}
  {step : Stream → Step Stream} {cases : List Case}

/-- The states up to the start of a window. -/
def DecState.opening : List DecState := .cpyLen :: .winInd :: fileHeader

theorem DecState.outside_window (opening : state ∈ DecState.opening) :
    state ∉ DecState.outward ∧ state ∉ DecState.behindCpyLen ∧ state ∉ DecState.behindTgtLen ∧
      state ∉ DecState.sections := by
  revert opening
  cases state <;> decide

theorem ne_emit (outside : state ∉ DecState.outward) : state ≠ .emit := fun emit => outside (emit ▸ List.mem_cons_self)

theorem Rests.returned {answer : Answer} {s' : Stream} (rests : Rests s answer s') (here : s.decState ∈ DecState.opening)
    (safe : s.Safe) : Returned answer s' := by
  obtain ⟨inward, notPlaced, notEnded, -⟩ := DecState.outside_window here
  cases rests with
  | waits unmoved =>
    exact ⟨fun _ => nofun, fun _ _ _ => unmoved.safe safe (ne_emit inward) inward (.none notPlaced notEnded)⟩
  | fails failure => exact .fails failure s'

theorem Overruns.returned {answer : Answer} {s' : Stream} (overruns : Overruns s answer s')
    (here : s.decState ∈ DecState.opening) (safe : s.Safe) : Returned answer s' := by
  rcases overruns with rests | ⟨rfl, round⟩
  · exact rests.returned here safe
  · exact ⟨fun headed => absurd headed round, fun goes => goes.elim⟩

theorem opening_meets (meets : Meets (Leads nstate s) (Overruns s) (step s))
    (entered : Entered applyTableEncoding s (([state], step) :: cases))
    (before : state ∈ DecState.opening ∧ nstate ∈ DecState.opening) (guarded : s.Guarded) :
    Meets Stream.Guarded Returned (step s) := by
  have here : s.decState ∈ DecState.opening := by
    rcases entered.label with label | ⟨secondId, -⟩
    · exact List.mem_singleton.mp label ▸ before.1
    · rw [secondId]
      decide
  obtain ⟨inward, -⟩ := DecState.outside_window here
  obtain ⟨inward', notPlaced', notEnded', outside⟩ := DecState.outside_window before.2
  cases stepped : step s with
  | ok s' =>
    have leads := meets.ok stepped
    have safe := leads.safe guarded.safe (ne_emit inward) inward' (.none notPlaced' notEnded')
    exact safe.guarded (leads.decState ▸ outside)
  | error returned =>
    obtain ⟨answer, s'⟩ := returned
    exact (meets.error stepped).returned here guarded.safe

theorem windowHeader_meets (meets : Meets (Leads nstate s) (Rests s) (step s))
    (measured : Meets (fun s' => Measured nstate s'.body) (Leaves s) (step s)) (here : s.decState = state)
    (before : state ∈ DecState.windowHeader ∧ nstate ∈ DecState.windowHeader) (guarded : s.Guarded) :
    Meets Stream.Guarded Returned (step s) := by
  have other {state : DecState} (header : state ∈ DecState.windowHeader) :
      state ∉ DecState.outward ∧ state ∉ DecState.sections := by
    revert header
    cases state <;> decide
  have inward : s.decState ∉ DecState.outward := here ▸ (other before.1).1
  cases stepped : step s with
  | ok s' =>
    have leads := meets.ok stepped
    have safe := leads.safe guarded.safe (ne_emit inward) (other before.2).1 (measured.ok stepped)
    exact safe.guarded (leads.decState ▸ (other before.2).2)
  | error returned =>
    obtain ⟨answer, s'⟩ := returned
    have leaves := measured.error stepped
    cases meets.error stepped with
    | waits unmoved =>
      exact ⟨fun _ => nofun, fun goes _ _ => guarded.safe.same unmoved.decState (leaves goes) unmoved.buffers
        fun outward => absurd outward inward⟩
    | fails failure => exact .fails failure s'

/-- A case that leaves the window as it is. -/
theorem measured_same (body : Meets (fun s' => s'.body = s.body) (Leaves s) (step s)) (guarded : s.Guarded)
    (placed : s.decState ∈ DecState.behindCpyLen)
    (ended : nstate ∈ DecState.behindTgtLen → s.decState ∈ DecState.behindTgtLen) :
    Meets (fun s' => Measured nstate s'.body) (Leaves s) (step s) := by
  have measured := guarded.safe.measured
  refine body.mono fun s' same => ?_
  rw [same]
  exact ⟨fun _ => measured.position placed, fun within => measured.maxpos (ended within),
    fun within => measured.small (ended within)⟩

theorem guarded_kept : Kept applyTableEncoding Stream.Guarded Returned (decodeCases applyTableEncoding) := by
  unfold decodeCases
  refine .cons (fun s entered => opening_meets (vcHeadCase_meets.weaken fun _ _ => .inl) entered (by decide)) ?_
  refine .cons (fun s entered => opening_meets (hdrIndCase_meets.weaken fun _ _ => .inl) entered (by decide)) ?_
  refine .cons (fun s entered guarded => ?_) ?_
  · have meets := secondIdCase_meets (s := s)
    show Meets Stream.Guarded Returned (secondIdCase s)
    cases stepped : secondIdCase s with
    | ok s' =>
      obtain ⟨-, rfl⟩ := meets.ok stepped
      exact guarded
    | error returned =>
      obtain ⟨answer, s'⟩ := returned
      exact (meets.error stepped).returned (by rw [entered.only (by decide)]; decide) guarded.safe
  refine .cons (fun s entered => opening_meets (tabLenCase_meets.weaken fun _ _ => .inl) entered (by decide)) ?_
  refine .cons (fun s entered => opening_meets (nearCase_meets.weaken fun _ _ => .inl) entered (by decide)) ?_
  refine .cons (fun s entered => opening_meets (sameCase_meets.weaken fun _ _ => .inl) entered (by decide)) ?_
  refine .cons (fun s entered => opening_meets (tabDatCase_meets.weaken fun _ _ => .inl) entered (by decide)) ?_
  refine .cons (fun s entered => opening_meets (appLenCase_meets.weaken fun _ _ => .inl) entered (by decide)) ?_
  refine .cons (fun s entered => opening_meets appDatCase_meets entered (by decide)) ?_
  refine .cons (fun s entered => opening_meets ((winIndCase_meets.mono fun _ => And.left).weaken fun _ _ => .inl) entered (by decide)) ?_
  refine .cons (fun s entered guarded => ?_) ?_
  · have here := entered.only (by decide)
    refine windowHeader_meets cpyLenCase_meets (cpyLenCase_position.mono fun s' position => ?_) here (by decide) guarded
    exact ⟨fun _ => position, fun within => absurd within (by decide), fun within => absurd within (by decide)⟩
  refine .cons (fun s entered guarded => ?_) ?_
  · have here := entered.only (by decide)
    exact windowHeader_meets cpyOffCase_meets (measured_same cpyOffCase_body guarded (here ▸ by decide) fun within => absurd within (by decide)) here
      (by decide) guarded
  refine .cons (fun s entered guarded => ?_) ?_
  · have here := entered.only (by decide)
    exact windowHeader_meets encLenCase_meets (measured_same encLenCase_body guarded (here ▸ by decide) fun within => absurd within (by decide)) here
      (by decide) guarded
  refine .cons (fun s entered guarded => ?_) ?_
  · have here := entered.only (by decide)
    have position := guarded.safe.measured.position (here ▸ by decide)
    refine windowHeader_meets tgtLenCase_meets (tgtLenCase_ended.mono fun s' ended => ?_) here (by decide) guarded
    exact ⟨fun _ => by rw [ended.position, ended.cpylen, position], fun _ => ended.maxpos, fun _ => ended.small⟩
  refine .cons (fun s entered guarded => ?_) ?_
  · have here := entered.only (by decide)
    exact windowHeader_meets delIndCase_meets
      (measured_same delIndCase_body guarded (here ▸ by decide) (fun _ => here ▸ by decide)) here (by decide) guarded
  refine .cons (fun s entered guarded => ?_) ?_
  · have here := entered.only (by decide)
    exact windowHeader_meets sectLenCase_meets
      (measured_same sectLenCase_body guarded (here ▸ by decide) (fun _ => here ▸ by decide)) here (by decide) guarded
  refine .cons (fun s entered guarded => ?_) ?_
  · have here := entered.only (by decide)
    exact windowHeader_meets sectLenCase_meets
      (measured_same sectLenCase_body guarded (here ▸ by decide) (fun _ => here ▸ by decide)) here (by decide) guarded
  refine .cons (fun s entered guarded => ?_) ?_
  · have here := entered.only (by decide)
    exact windowHeader_meets sectLenCase_meets
      (measured_same sectLenCase_body guarded (here ▸ by decide) (fun _ => here ▸ by decide)) here (by decide) guarded
  refine .cons (fun s entered guarded => ?_) ?_
  · have here := entered.only (by decide)
    have measured : Measured .data s.body :=
      ⟨fun _ => guarded.safe.measured.position (here ▸ by decide), fun _ => guarded.safe.measured.maxpos (here ▸ by decide),
        fun _ => guarded.safe.measured.small (here ▸ by decide)⟩
    have announced {s' : Stream} (leads : Leads .data s s') (same : s'.body = s.body) : s'.Safe :=
      leads.safe guarded.safe (here ▸ by decide) (by decide) (same ▸ measured)
    show Meets Stream.Guarded Returned (ckSumCase s)
    cases stepped : ckSumCase s with
    | ok s' => exact (ckSumCase_meets.ok stepped).elim
    | error returned =>
      obtain ⟨answer, s'⟩ := returned
      have leaves := ckSumCase_body.error stepped
      cases ckSumCase_meets.error stepped with
      | gotHeader leads => exact ⟨fun _ => nofun, fun goes _ _ => announced leads (leaves goes)⟩
      | winStart leads => exact ⟨fun _ => nofun, fun goes _ _ => announced leads (leaves goes)⟩
      | rests rests =>
        cases rests with
        | waits unmoved =>
          exact ⟨fun _ => nofun, fun goes _ _ => guarded.safe.same unmoved.decState (leaves goes) unmoved.buffers
            fun outward => absurd (here ▸ outward) (by decide)⟩
        | fails failure => exact .fails failure s'
  refine .cons (fun s entered guarded => ?_) ?_
  · show Meets Stream.Guarded Returned (sectionsCase s)
    unfold sectionsCase
    split
    · exact takeSections_meets guarded (by assumption)
    · exact .fails _ _
  refine .cons (fun s entered guarded => emitCase_meets guarded.safe (entered.only (by decide))) ?_
  exact .cons (fun s entered guarded => finishCase_meets guarded.safe (entered.only (by decide))) .nil

end Cases

/-! ## Runs -/

section Runs

variable {applyTableEncoding : Nat → Nat → Bytes → Except Failure (List Dinst)} {source : Bytes}

/-- Every window of a run is tame, and no header of the application is said to have
`2 ^ 32 - 1` bytes. -/
structure Caller.Tame (applyTableEncoding : Nat → Nat → Bytes → Except Failure (List Dinst)) (source : Bytes)
    (c : Caller) : Prop where
  windows : ∀ c', Reaches (serveTurn applyTableEncoding source) c c' → c'.stream.decState ∈ DecState.sections →
    c'.stream.TameSections
  headed : ∀ c', Reaches (serveTurn applyTableEncoding source) c c' → (decodeInput applyTableEncoding c'.stream).2.Headed

theorem Caller.Tame.next {c c' : Caller} (tame : c.Tame applyTableEncoding source)
    (turned : serveTurn applyTableEncoding source c = .again c') : c'.Tame applyTableEncoding source where
  windows c'' reaches := tame.windows c'' (.step turned reaches)
  headed c'' reaches := tame.headed c'' (.step turned reaches)

/-- What is true of a caller between two calls. -/
structure Caller.Kept (applyTableEncoding : Nat → Nat → Bytes → Except Failure (List Dinst)) (source : Bytes)
    (c : Caller) : Prop where
  safe : c.stream.Safe
  good : c.stream.Good
  tame : c.Tame applyTableEncoding source

theorem serveTurn_kept {c : Caller} (kept : c.Kept applyTableEncoding source) :
    (serveTurn applyTableEncoding source c).Holds (Caller.Kept applyTableEncoding source)
      fun ending => ending.answer ≠ .undefined := by
  obtain ⟨s, chunks, out⟩ := c
  have guarded : s.Guarded := ⟨kept.safe, kept.good.tallied, kept.tame.windows _ (.refl _)⟩
  have left : Returned (decodeInput applyTableEncoding s).1 (decodeInput applyTableEncoding s).2 :=
    guarded_kept.decodeInput Returned.fails guarded
  have headed := kept.tame.headed _ (.refl _)
  cases returned : decodeInput applyTableEncoding s with
  | mk answer t =>
    rw [returned] at left headed
    by_cases waited : answer = .input
    · subst waited
      cases chunks with
      | nil =>
        rw [serveTurn_end returned]
        exact nofun
      | cons chunk chunks =>
        have turned : serveTurn applyTableEncoding source ⟨s, chunk :: chunks, out⟩ = .again ⟨availInput t chunk, chunks, out⟩ :=
          serveTurn_next returned
        have safe : t.Safe := left.safe trivial source out
        have good : t.Good := decodeInput_good kept.good returned trivial
        rw [turned]
        exact ⟨safe.same rfl rfl rfl fun _ => rfl, good.same rfl rfl rfl, kept.tame.next turned⟩
    by_cases goes : answer.Goes
    · have turned : serveTurn applyTableEncoding source ⟨s, chunks, out⟩ =
          .again ⟨(served source answer t out).1, chunks, (served source answer t out).2⟩ := serveTurn_goes returned goes waited
      rw [turned]
      exact ⟨left.safe goes source out, served_good (decodeInput_good kept.good returned goes), kept.tame.next turned⟩
    · rw [serveTurn_stops returned goes]
      exact left.defined headed

theorem startStream_safe (shiftby : Nat) : (startStream shiftby).Safe :=
  ⟨fun _ => rfl, fun _ => rfl, fun _ => rfl,
    .none (show DecState.vcHead ∉ DecState.behindCpyLen by decide) (show DecState.vcHead ∉ DecState.behindTgtLen by decide),
    nofun, ⟨rfl, rfl⟩, fun outward => absurd outward (show DecState.vcHead ∉ DecState.outward by decide)⟩

end Runs

end OpenDelta.Vcdiff
