import OpenDelta.Vcdiff.Cases
import OpenDelta.Vcdiff.Leads

/-!
# One case after another

The decoder enters the case of its state and falls through to those behind. The list
of the cases is gone through once, for what carries on (`chained_casesFrom`) and for
what holds along the way (`DecoderInvariant`).
-/

namespace OpenDelta.Vcdiff

/-- A case of the decoder, with its labels. -/
abbrev Case : Type := List DecState × (Stream → Step Stream)

section Entering

variable {applyTableEncoding : Nat → Nat → Bytes → Except Failure (List Dinst)} {s s' : Stream} {case : Case}
  {cases : List Case}

/-- The decoder is at the first of these cases. Without a secondary compressor the
state at `tabLen` is still the one of the case before. -/
inductive Entered (applyTableEncoding : Nat → Nat → Bytes → Except Failure (List Dinst)) (s : Stream)
    (cases : List Case) : Prop where
  | here : casesFrom applyTableEncoding s.decState = cases → Entered applyTableEncoding s cases
  | tabLen : s.decState = .secondId → s.secondary = false → casesFrom applyTableEncoding .tabLen = cases →
    Entered applyTableEncoding s cases

theorem Entered.of_state {state : DecState} (at_state : s.decState = state)
    (here : casesFrom applyTableEncoding state = cases) : Entered applyTableEncoding s cases := by
  apply Entered.here
  rw [at_state, here]

theorem mem_label {state : DecState} (here : casesFrom applyTableEncoding state = case :: cases) : state ∈ case.1 := by
  unfold casesFrom at here
  have head := List.head?_dropWhile_not (fun case : Case => decide (state ∉ case.1)) (decodeCases applyTableEncoding)
  rw [here] at head
  simpa using head

/-- The state is a label of the case. -/
theorem Entered.label (entered : Entered applyTableEncoding s (case :: cases)) :
    s.decState ∈ case.1 ∨ s.decState = .secondId ∧ s.secondary = false ∧ .tabLen ∈ case.1 := by
  cases entered with
  | here here => exact .inl (mem_label here)
  | tabLen before absent here => exact .inr ⟨before, absent, mem_label here⟩

theorem secondIdCase_passes (absent : s.secondary = false) : secondIdCase s = .ok s :=
  if_neg (by rw [absent]; exact Bool.false_ne_true)

theorem casesFrom_secondId :
    casesFrom applyTableEncoding .secondId = ([.secondId], secondIdCase) :: casesFrom applyTableEncoding .tabLen := by
  simp [casesFrom, decodeCases, List.dropWhile]

theorem runCases_entered (entered : Entered applyTableEncoding s cases) :
    runCases (casesFrom applyTableEncoding s.decState) s = runCases cases s := by
  cases entered with
  | here here => rw [here]
  | tabLen before absent here =>
    rw [before, casesFrom_secondId, here, runCases]
    dsimp only
    rw [secondIdCase_passes absent]
    rfl

/-- The sections are one case. -/
theorem casesFrom_sections {state : DecState} (within : state ∈ DecState.sections) :
    casesFrom applyTableEncoding state = casesFrom applyTableEncoding .data := by
  simp only [DecState.sections, List.mem_cons, List.not_mem_nil, or_false] at within
  rcases within with rfl | rfl | rfl
  · rfl
  · simp [casesFrom, decodeCases, List.dropWhile]
  · simp [casesFrom, decodeCases, List.dropWhile]

theorem Entered.stays (entered : Entered applyTableEncoding s cases) (stays : Stays s s') :
    Entered applyTableEncoding s' cases := by
  have states : casesFrom applyTableEncoding s'.decState = casesFrom applyTableEncoding s.decState := by
    rcases stays.decState with same | ⟨before, behind⟩
    · rw [same]
    · rw [casesFrom_sections before, casesFrom_sections behind]
  cases entered with
  | here here => exact .here (states.trans here)
  | tabLen before absent here =>
    refine .tabLen ?_ (stays.secondary.trans absent) here
    rcases stays.decState with same | ⟨elsewhere, -⟩
    · exact same.trans before
    · rw [before] at elsewhere
      simp [DecState.sections] at elsewhere

end Entering

/-! ## The chain of the cases -/

section Chain

variable {applyTableEncoding : Nat → Nat → Bytes → Except Failure (List Dinst)} {s s' : Stream} {case : Case}
  {cases : List Case}

/-- A case that carries on and leads to the next ones. -/
structure Linked (applyTableEncoding : Nat → Nat → Bytes → Except Failure (List Dinst)) (case : Case)
    (cases : List Case) : Prop where
  carries : CarriesOn case.2
  next : ∀ {s s'}, Entered applyTableEncoding s (case :: cases) → case.2 s = .ok s' →
    Entered applyTableEncoding s' cases
  fits : ∀ {s s'}, s.Fits → case.2 s = .ok s' → s'.Fits

/-- Each of the cases is linked with those behind it. -/
inductive Chained (applyTableEncoding : Nat → Nat → Bytes → Except Failure (List Dinst)) : List Case → Prop where
  | nil : Chained applyTableEncoding []
  | cons {case : Case} {cases : List Case} : Linked applyTableEncoding case cases → Chained applyTableEncoding cases →
    Chained applyTableEncoding (case :: cases)

theorem Stream.Fits.of_state (outside : s.decState ∉ DecState.sections) : s.Fits := fun within => absurd within outside

theorem Linked.of_leads {state : DecState} (carries : CarriesOn case.2)
    (leads : ∀ {s s'}, case.2 s = .ok s' → s'.decState = state) (here : casesFrom applyTableEncoding state = cases)
    (outside : state ∉ DecState.sections) : Linked applyTableEncoding case cases :=
  ⟨carries, fun _ ok => .of_state (leads ok) here, fun _ ok => .of_state (leads ok ▸ outside)⟩

theorem Linked.of_never (carries : CarriesOn case.2) (never : ∀ {s s'}, case.2 s ≠ .ok s') :
    Linked applyTableEncoding case cases := ⟨carries, fun _ ok => absurd ok never, fun _ ok => absurd ok never⟩

theorem linked_secondId (here : casesFrom applyTableEncoding .tabLen = cases) :
    Linked applyTableEncoding ([.secondId], secondIdCase) cases := by
  refine ⟨secondIdCase_carriesOn, fun entered ok => ?_, fun fits ok => ?_⟩
  · obtain ⟨absent, rfl⟩ := secondIdCase_meets.ok ok
    rcases entered.label with before | ⟨before, -⟩
    · exact .tabLen (List.mem_singleton.mp before) absent here
    · exact .tabLen before absent here
  · obtain ⟨-, rfl⟩ := secondIdCase_meets.ok ok
    exact fits

theorem decodeSection_state {name : SectName} {copy : Bool} {nstate : DecState}
    (ok : decodeSection name copy nstate s = .ok s') : s'.decState = nstate := by
  unfold decodeSection takeSection at ok
  split at ok
  · cases ok
    rfl
  split at ok
  · cases ok
  split at ok
  · dsimp only at ok
    split at ok
    · cases ok
    · cases ok
      rfl
  · cases ok

theorem setupBuffers_ok (ok : setupBuffers s = .ok s') : ∃ buffers, s' = s.setUp buffers := by
  unfold setupBuffers at ok
  split at ok
  · split at ok
    · cases ok
    split at ok
    · cases ok
    · cases ok
      exact ⟨_, rfl⟩
  · cases ok
    exact ⟨_, rfl⟩

theorem sectionsCase_ok (ok : sectionsCase s = .ok s') : s'.decState = .emit := by
  unfold sectionsCase at ok
  split at ok
  case isFalse => cases ok
  obtain ⟨s1, sections, ok⟩ := bind_ok ok
  obtain ⟨s2, -, sections⟩ := bind_ok sections
  obtain ⟨s3, -, last⟩ := bind_ok sections
  obtain ⟨buffers, rfl⟩ := setupBuffers_ok ok
  show s1.decState = .emit
  exact decodeSection_state last

theorem chained_decodeCases : Chained applyTableEncoding (decodeCases applyTableEncoding) := by
  unfold decodeCases
  refine .cons (.of_leads vcHeadCase_carriesOn (fun ok => (vcHeadCase_meets.ok ok).decState) ?_ (by decide)) ?_
  · simp [casesFrom, decodeCases, List.dropWhile]
  refine .cons (.of_leads hdrIndCase_carriesOn (fun ok => (hdrIndCase_meets.ok ok).decState) ?_ (by decide)) ?_
  · simp [casesFrom, decodeCases, List.dropWhile]
  refine .cons (linked_secondId ?_) ?_
  · simp [casesFrom, decodeCases, List.dropWhile]
  refine .cons (.of_leads tabLenCase_carriesOn (fun ok => (tabLenCase_meets.ok ok).decState) ?_ (by decide)) ?_
  · simp [casesFrom, decodeCases, List.dropWhile]
  refine .cons (.of_leads nearCase_carriesOn (fun ok => (nearCase_meets.ok ok).decState) ?_ (by decide)) ?_
  · simp [casesFrom, decodeCases, List.dropWhile]
  refine .cons (.of_leads sameCase_carriesOn (fun ok => (sameCase_meets.ok ok).decState) ?_ (by decide)) ?_
  · simp [casesFrom, decodeCases, List.dropWhile]
  refine .cons (.of_leads (tabDatCase_carriesOn applyTableEncoding) (fun ok => (tabDatCase_meets.ok ok).decState) ?_ (by decide)) ?_
  · simp [casesFrom, decodeCases, List.dropWhile]
  refine .cons (.of_leads appLenCase_carriesOn (fun ok => (appLenCase_meets.ok ok).decState) ?_ (by decide)) ?_
  · simp [casesFrom, decodeCases, List.dropWhile]
  refine .cons (.of_leads appDatCase_carriesOn (fun ok => (appDatCase_meets.ok ok).decState) ?_ (by decide)) ?_
  · simp [casesFrom, decodeCases, List.dropWhile]
  refine .cons (.of_leads winIndCase_carriesOn (fun ok => (winIndCase_meets.ok ok).1.decState) ?_ (by decide)) ?_
  · simp [casesFrom, decodeCases, List.dropWhile]
  refine .cons (.of_leads cpyLenCase_carriesOn (fun ok => (cpyLenCase_meets.ok ok).decState) ?_ (by decide)) ?_
  · simp [casesFrom, decodeCases, List.dropWhile]
  refine .cons (.of_leads cpyOffCase_carriesOn (fun ok => (cpyOffCase_meets.ok ok).decState) ?_ (by decide)) ?_
  · simp [casesFrom, decodeCases, List.dropWhile]
  refine .cons (.of_leads encLenCase_carriesOn (fun ok => (encLenCase_meets.ok ok).decState) ?_ (by decide)) ?_
  · simp [casesFrom, decodeCases, List.dropWhile]
  refine .cons (.of_leads tgtLenCase_carriesOn (fun ok => (tgtLenCase_meets.ok ok).decState) ?_ (by decide)) ?_
  · simp [casesFrom, decodeCases, List.dropWhile]
  refine .cons (.of_leads delIndCase_carriesOn (fun ok => (delIndCase_meets.ok ok).decState) ?_ (by decide)) ?_
  · simp [casesFrom, decodeCases, List.dropWhile]
  refine .cons (.of_leads (sectLenCase_carriesOn .data .instLen) (fun ok => (sectLenCase_meets.ok ok).decState) ?_ (by decide)) ?_
  · simp [casesFrom, decodeCases, List.dropWhile]
  refine .cons (.of_leads (sectLenCase_carriesOn .inst .addrLen) (fun ok => (sectLenCase_meets.ok ok).decState) ?_ (by decide)) ?_
  · simp [casesFrom, decodeCases, List.dropWhile]
  refine .cons (.of_leads (sectLenCase_carriesOn .addr .ckSum) (fun ok => (sectLenCase_meets.ok ok).decState) ?_ (by decide)) ?_
  · simp [casesFrom, decodeCases, List.dropWhile]
  refine .cons (.of_never ckSumCase_carriesOn fun ok => ckSumCase_meets.ok ok) ?_
  refine .cons (.of_leads sectionsCase_carriesOn sectionsCase_ok ?_ (by decide)) ?_
  · simp [casesFrom, decodeCases, List.dropWhile]
  refine .cons (.of_never emitCase_steady.carriesOn nofun) ?_
  exact .cons (.of_never finishCase_steady.carriesOn nofun) .nil

theorem Chained.dropWhile (chained : Chained applyTableEncoding cases) (p : Case → Bool) :
    Chained applyTableEncoding (cases.dropWhile p) := by
  induction chained with
  | nil => exact .nil
  | cons linked chained ih =>
    rw [List.dropWhile_cons]
    split
    · exact ih
    · exact .cons linked chained

theorem chained_casesFrom (state : DecState) : Chained applyTableEncoding (casesFrom applyTableEncoding state) :=
  chained_decodeCases.dropWhile _

end Chain

/-! ## What holds along the way -/

section Invariant

/-- The states of the header of the delta. -/
def DecState.fileHeader : List DecState :=
  [.vcHead, .hdrInd, .secondId, .tabLen, .near, .same, .tabDat, .appLen, .appDat]

/-- The states of the header of a window, behind its first byte. -/
def DecState.windowHeader : List DecState :=
  [.cpyLen, .cpyOff, .encLen, .tgtLen, .delInd, .dataLen, .instLen, .addrLen, .ckSum]

/-- A state of one of the headers, and one that it leads to. -/
def DecState.Before (state nstate : DecState) : Prop :=
  state ∈ fileHeader ∧ nstate ∈ DecState.winInd :: fileHeader ∨ state ∈ windowHeader ∧ nstate ∈ windowHeader

instance (state nstate : DecState) : Decidable (state.Before nstate) := inferInstanceAs (Decidable (_ ∨ _))

/-- What every case keeps, and what it returns with. -/
structure DecoderInvariant (Inv : Stream → Prop) (Ret : Answer → Stream → Prop) : Prop where
  header : ∀ {s s' nstate}, s.decState.Before nstate → Leads nstate s s' → Inv s → Inv s'
  window : ∀ {s s'}, s.decState = .winInd → Leads .cpyLen s s' → s'.input.length < s.input.length → Inv s → Inv s'
  waits : ∀ {s s'}, s.decState ∈ DecState.fileHeader ++ .winInd :: DecState.windowHeader → Unmoved s s' → Inv s →
    Ret .input s'
  fails : ∀ failure s, Ret (.fails failure) s
  overruns : ∀ {s}, ¬s.Headed → Ret .undefined s
  announced : ∀ {s s'}, s.decState = .ckSum → Leads .data s s' → Inv s → Ret .gotHeader s' ∧ Ret .winStart s'
  sections : ∀ {s}, s.decState ∈ DecState.sections → Inv s → Meets Inv Ret (takeSections s)
  emits : ∀ {s}, s.decState = .emit → Inv s → Meets Inv Ret (emitCase s)
  finishes : ∀ {s}, s.decState = .finish → Inv s → Meets Inv Ret (finishCase s)

variable {applyTableEncoding : Nat → Nat → Bytes → Except Failure (List Dinst)} {Inv : Stream → Prop}
  {Ret : Answer → Stream → Prop} {s : Stream} {cases : List Case}

/-- The cases keep it, each where it is entered. -/
inductive Kept (applyTableEncoding : Nat → Nat → Bytes → Except Failure (List Dinst)) (Inv : Stream → Prop)
    (Ret : Answer → Stream → Prop) : List Case → Prop where
  | nil : Kept applyTableEncoding Inv Ret []
  | cons {case : Case} {cases : List Case} :
    (∀ s, Entered applyTableEncoding s (case :: cases) → Inv s → Meets Inv Ret (case.2 s)) →
      Kept applyTableEncoding Inv Ret cases → Kept applyTableEncoding Inv Ret (case :: cases)

theorem Kept.runCases (kept : Kept applyTableEncoding Inv Ret cases) (chained : Chained applyTableEncoding cases)
    (entered : Entered applyTableEncoding s cases) (inv : Inv s) : Meets Inv Ret (runCases cases s) := by
  induction kept generalizing s with
  | nil => exact inv
  | @cons case cases keeps kept ih =>
    cases chained with
    | cons linked chained =>
      have meets := keeps s entered inv
      rw [Vcdiff.runCases]
      cases stepped : case.2 s with
      | ok s' => exact ih chained (linked.next entered stepped) (meets.ok stepped)
      | error returned => exact meets.error stepped

theorem DecoderInvariant.rests {s' : Stream} {answer : Answer} (invariant : DecoderInvariant Inv Ret)
    (rests : Rests s answer s') (here : s.decState ∈ DecState.fileHeader ++ .winInd :: DecState.windowHeader)
    (inv : Inv s) : Ret answer s' := by
  cases rests with
  | waits unmoved => exact invariant.waits here unmoved inv
  | fails failure => exact invariant.fails failure s'

/-- A case of the headers. -/
theorem DecoderInvariant.meets {state nstate : DecState} {step : Stream → Step Stream} {s : Stream}
    (invariant : DecoderInvariant Inv Ret) (meets : Meets (Leads nstate s) (Rests s) (step s))
    (entered : Entered applyTableEncoding s (([state], step) :: cases))
    (before : state.Before nstate ∧ (state = .tabLen → DecState.secondId.Before nstate)) (inv : Inv s) :
    Meets Inv Ret (step s) := by
  have order : s.decState.Before nstate := by
    rcases entered.label with here | ⟨here, -, tabLen⟩
    · exact List.mem_singleton.mp here ▸ before.1
    · rw [here]
      exact before.2 (List.mem_singleton.mp tabLen).symm
  cases stepped : step s with
  | ok s' => exact invariant.header order (meets.ok stepped) inv
  | error returned =>
    refine invariant.rests (meets.error stepped) ?_ inv
    rcases order with ⟨file, -⟩ | ⟨window, -⟩
    · exact List.mem_append_left _ file
    · exact List.mem_append_right _ (List.mem_cons_of_mem _ window)

theorem Entered.only {state : DecState} {step : Stream → Step Stream}
    (entered : Entered applyTableEncoding s (([state], step) :: cases)) (other : state ≠ .tabLen) :
    s.decState = state := by
  rcases entered.label with here | ⟨-, -, tabLen⟩
  · exact List.mem_singleton.mp here
  · exact absurd (List.mem_singleton.mp tabLen).symm other

theorem DecoderInvariant.kept (invariant : DecoderInvariant Inv Ret) :
    Kept applyTableEncoding Inv Ret (decodeCases applyTableEncoding) := by
  unfold decodeCases
  refine .cons (fun s entered => invariant.meets vcHeadCase_meets entered (by decide)) ?_
  refine .cons (fun s entered => invariant.meets hdrIndCase_meets entered (by decide)) ?_
  refine .cons (fun s entered inv => ?_) ?_
  · have meets := secondIdCase_meets (s := s)
    show Meets Inv Ret (secondIdCase s)
    cases stepped : secondIdCase s with
    | ok s' =>
      obtain ⟨-, rfl⟩ := meets.ok stepped
      exact inv
    | error returned => exact invariant.rests (meets.error stepped) (by rw [entered.only (by decide)]; decide) inv
  refine .cons (fun s entered => invariant.meets tabLenCase_meets entered (by decide)) ?_
  refine .cons (fun s entered => invariant.meets nearCase_meets entered (by decide)) ?_
  refine .cons (fun s entered => invariant.meets sameCase_meets entered (by decide)) ?_
  refine .cons (fun s entered => invariant.meets tabDatCase_meets entered (by decide)) ?_
  refine .cons (fun s entered => invariant.meets appLenCase_meets entered (by decide)) ?_
  refine .cons (fun s entered inv => ?_) ?_
  · have here := entered.only (by decide)
    have meets := appDatCase_meets (s := s)
    show Meets Inv Ret (appDatCase s)
    cases stepped : appDatCase s with
    | ok s' => exact invariant.header (by rw [here]; decide) (meets.ok stepped) inv
    | error returned =>
      obtain ⟨answer, s'⟩ := returned
      rcases meets.error stepped with rests | ⟨rfl, round⟩
      · exact invariant.rests rests (by rw [here]; decide) inv
      · exact invariant.overruns round
  refine .cons (fun s entered inv => ?_) ?_
  · have here := entered.only (by decide)
    have meets := winIndCase_meets (s := s)
    show Meets Inv Ret (winIndCase s)
    cases stepped : winIndCase s with
    | ok s' => exact invariant.window here (meets.ok stepped).1 (meets.ok stepped).2 inv
    | error returned => exact invariant.rests (meets.error stepped) (by rw [here]; decide) inv
  refine .cons (fun s entered => invariant.meets cpyLenCase_meets entered (by decide)) ?_
  refine .cons (fun s entered => invariant.meets cpyOffCase_meets entered (by decide)) ?_
  refine .cons (fun s entered => invariant.meets encLenCase_meets entered (by decide)) ?_
  refine .cons (fun s entered => invariant.meets tgtLenCase_meets entered (by decide)) ?_
  refine .cons (fun s entered => invariant.meets delIndCase_meets entered (by decide)) ?_
  refine .cons (fun s entered => invariant.meets sectLenCase_meets entered (by decide)) ?_
  refine .cons (fun s entered => invariant.meets sectLenCase_meets entered (by decide)) ?_
  refine .cons (fun s entered => invariant.meets sectLenCase_meets entered (by decide)) ?_
  refine .cons (fun s entered inv => ?_) ?_
  · have here := entered.only (by decide)
    have meets := ckSumCase_meets (s := s)
    show Meets Inv Ret (ckSumCase s)
    cases stepped : ckSumCase s with
    | ok s' => exact (meets.ok stepped).elim
    | error returned =>
      obtain ⟨answer, s'⟩ := returned
      cases meets.error stepped with
      | gotHeader leads => exact (invariant.announced here leads inv).1
      | winStart leads => exact (invariant.announced here leads inv).2
      | rests rests => exact invariant.rests rests (by rw [here]; decide) inv
  refine .cons (fun s entered inv => ?_) ?_
  · show Meets Inv Ret (sectionsCase s)
    unfold sectionsCase
    split
    · exact invariant.sections (by assumption) inv
    · exact invariant.fails _ _
  refine .cons (fun s entered inv => invariant.emits (entered.only (by decide)) inv) ?_
  exact .cons (fun s entered inv => invariant.finishes (entered.only (by decide)) inv) .nil

theorem Kept.dropWhile (kept : Kept applyTableEncoding Inv Ret cases) (p : Case → Bool) :
    Kept applyTableEncoding Inv Ret (cases.dropWhile p) := by
  induction kept with
  | nil => exact .nil
  | cons keeps kept ih =>
    rw [List.dropWhile_cons]
    split
    · exact ih
    · exact .cons keeps kept

/-- What the cases keep holds when the decoder returns. -/
theorem Kept.decodeInput (kept : Kept applyTableEncoding Inv Ret (decodeCases applyTableEncoding))
    (fails : ∀ failure s, Ret (.fails failure) s) (inv : Inv s) :
    Ret (decodeInput applyTableEncoding s).1 (decodeInput applyTableEncoding s).2 := by
  have rest := kept.dropWhile fun case => decide (s.decState ∉ case.1)
  have meets := rest.runCases (chained_casesFrom s.decState) (.of_state rfl rfl) inv
  unfold Vcdiff.decodeInput
  change Meets Inv Ret (Vcdiff.runCases (casesFrom applyTableEncoding s.decState) s) at meets
  cases run : Vcdiff.runCases (casesFrom applyTableEncoding s.decState) s with
  | ok s' => exact fails _ _
  | error returned =>
    obtain ⟨answer, s'⟩ := returned
    exact meets.error run

theorem DecoderInvariant.decodeInput (invariant : DecoderInvariant Inv Ret) (inv : Inv s) :
    Ret (decodeInput applyTableEncoding s).1 (decodeInput applyTableEncoding s).2 :=
  invariant.kept.decodeInput invariant.fails inv

end Invariant

end OpenDelta.Vcdiff
