import OpenDelta.Data.Turning
import OpenDelta.Vcdiff.Dispatch

/-!
# Input in chunks

The decoder does not see where its input is cut. When it returns for another reason
than input, it would have done the same with more input behind (`decodeInput_stops`);
when it returns for input, it goes on as if the next chunk had been there from the
start (`decodeInput_waits`), unless the lengths of the sections add up to `2 ^ 32`,
or nearly so, where it does not know how much of them is there.

A caller that serves its returns therefore ends up with the same output however the
delta is cut (`serve_chunks`).
-/

namespace OpenDelta.Vcdiff
open ByteFile

section Runs

variable {applyTableEncoding : Nat → Nat → Bytes → Except Failure (List Dinst)} {s s' : Stream} {cases : List Case}

theorem runCases_goes (chained : Chained applyTableEncoding cases) (more : Bytes) (fits : s.Fits)
    (gone : runCases cases s = .ok s') : runCases cases (s.more more) = .ok (s'.more more) := by
  induction chained generalizing s with
  | nil =>
    cases gone
    rfl
  | cons linked chained ih =>
    rw [runCases] at gone ⊢
    obtain ⟨mid, first, gone⟩ := bind_ok gone
    rw [linked.carries.goes more first fits]
    exact ih (linked.fits fits first) gone

/-- The decoder stops where it would have stopped with more behind. -/
theorem runCases_stops {answer : Answer} (chained : Chained applyTableEncoding cases) (more : Bytes)
    (final : answer.Final s) (stopped : runCases cases s = .error (answer, s')) :
    runCases cases (s.more more) = .error (answer, s'.more more) := by
  induction chained generalizing s with
  | nil => cases stopped
  | @cons case cases linked chained ih =>
    rw [runCases] at stopped ⊢
    cases first : case.2 s with
    | ok mid =>
      rw [first] at stopped
      rw [linked.carries.goes more first final.fits]
      exact ih ⟨final.other, linked.fits final.fits first⟩ stopped
    | error returned =>
      rw [first] at stopped
      cases stopped
      rw [linked.carries.stops more first final]
      rfl

/-- After a wait, the decoder enters the case again in which it waited. -/
theorem runCases_waits (chained : Chained applyTableEncoding cases) (more : Bytes) (fits : s.Fits)
    (entered : Entered applyTableEncoding s cases) (waited : runCases cases s = .error (.input, s')) :
    runCases cases (s.more more) = runCases (casesFrom applyTableEncoding s'.decState) (s'.more more) := by
  induction chained generalizing s with
  | nil => cases waited
  | @cons case cases linked chained ih =>
    rw [runCases] at waited ⊢
    cases first : case.2 s with
    | ok mid =>
      rw [first] at waited
      rw [linked.carries.goes more first fits]
      exact ih (linked.fits fits first) (linked.next entered first) waited
    | error returned =>
      rw [first] at waited
      cases waited
      have again : Entered applyTableEncoding (s'.more more) (case :: cases) :=
        (entered.stays (linked.carries.stays first)).stays ⟨rfl, rfl, .inl rfl⟩
      rw [linked.carries.waits more first fits]
      exact (runCases_entered again).symm

theorem runCases_used (chained : Chained applyTableEncoding cases)
    (waited : runCases cases s = .error (.input, s')) : s'.input = [] := by
  induction chained generalizing s with
  | nil => cases waited
  | @cons case cases linked chained ih =>
    rw [runCases] at waited
    cases first : case.2 s with
    | ok mid =>
      rw [first] at waited
      exact ih waited
    | error returned =>
      rw [first] at waited
      cases waited
      exact linked.carries.used first

/-- A return but for input is the same with more input behind. -/
theorem decodeInput_stops {answer : Answer} (stopped : decodeInput applyTableEncoding s = (answer, s'))
    (final : answer.Final s) (more : Bytes) :
    decodeInput applyTableEncoding (s.more more) = (answer, s'.more more) := by
  have chained : Chained applyTableEncoding (casesFrom applyTableEncoding s.decState) := chained_casesFrom s.decState
  unfold decodeInput at stopped ⊢
  rw [show (s.more more).decState = s.decState from rfl]
  cases run : runCases (casesFrom applyTableEncoding s.decState) s with
  | ok mid =>
    rw [run] at stopped
    cases stopped
    rw [runCases_goes chained more final.fits run]
  | error returned =>
    rw [run] at stopped
    cases stopped
    rw [runCases_stops chained more final run]

theorem runCases_of_waits (waited : decodeInput applyTableEncoding s = (.input, s')) :
    runCases (casesFrom applyTableEncoding s.decState) s = .error (.input, s') := by
  unfold decodeInput at waited
  cases run : runCases (casesFrom applyTableEncoding s.decState) s with
  | ok mid =>
    rw [run] at waited
    cases waited
  | error returned =>
    rw [run] at waited
    cases waited
    rfl

/-- A wait comes when the input is used up. -/
theorem decodeInput_used (waited : decodeInput applyTableEncoding s = (.input, s')) : s'.input = [] :=
  runCases_used (chained_casesFrom _) (runCases_of_waits waited)

/-- Behind a wait, the input that comes is seen as if it had been there. -/
theorem decodeInput_waits (waited : decodeInput applyTableEncoding s = (.input, s')) (fits : s.Fits) (more : Bytes) :
    decodeInput applyTableEncoding (s.more more) = decodeInput applyTableEncoding (availInput s' more) := by
  have next : availInput s' more = s'.more more := by
    rw [Stream.more_eq, decodeInput_used waited]
    rfl
  have same := runCases_waits (chained_casesFrom s.decState) more fits (.of_state rfl rfl) (runCases_of_waits waited)
  rw [next]
  unfold decodeInput
  rw [show (s.more more).decState = s.decState from rfl, same]
  rfl

end Runs

/-! ## The count of the sections -/

section Good

variable {applyTableEncoding : Nat → Nat → Bytes → Except Failure (List Dinst)} {s s' : Stream} {answer : Answer}

/-- A return after which the caller goes on. -/
def Answer.Goes : Answer → Prop
  | .fails _ | .undefined => False
  | _ => True

theorem setupBuffers_stops (stopped : setupBuffers s = .error (answer, s')) : ¬answer.Goes := by
  unfold setupBuffers at stopped
  split at stopped
  · split at stopped
    · cases stopped
      exact id
    split at stopped
    · cases stopped
      exact id
    · cases stopped
  · cases stopped

/-- Between the windows no section is begun, and within one `winbytes` is right. -/
structure Stream.Good (s : Stream) : Prop where
  clean : s.decState ∉ DecState.sections → s.decState ≠ .emit → s.winbytes = 0 ∧ ∀ name, (s.sect name).pos = 0
  tallied : s.decState ∈ DecState.sections → s.Tallied

theorem Stream.Good.emit (emit : s.decState = .emit) : s.Good :=
  ⟨fun _ ne => absurd emit ne, fun within => absurd (emit ▸ within) (by decide)⟩

theorem Leads.good {nstate : DecState} (leads : Leads nstate s s') (clean : s.winbytes = 0 ∧ ∀ name, (s.sect name).pos = 0)
    (outside : nstate ∉ DecState.sections) : s'.Good where
  clean _ _ := ⟨leads.winbytes.trans clean.1, fun name => (leads.filled name).1.trans (clean.2 name)⟩
  tallied within := absurd (leads.decState ▸ within) outside

theorem DecState.Before.outside {state nstate : DecState} (before : state.Before nstate) :
    state ∉ sections ∧ state ≠ .emit ∧ nstate ∉ sections := by
  revert before
  cases state <;> cases nstate <;> decide

/-- At the start of the sections, all of them are left. -/
theorem Leads.tallied (leads : Leads .data s s') (clean : s.winbytes = 0 ∧ ∀ name, (s.sect name).pos = 0) :
    s'.Tallied := by
  have none : s'.winbytes = 0 := leads.winbytes.trans clean.1
  have pos (name : SectName) : (s'.sect name).pos = 0 := (leads.filled name).1.trans (clean.2 name)
  refine ⟨by omega, ?_⟩
  rw [none, Stream.left, leads.decState]
  simp only [Section.left, pos, Stream.total]
  congr 1
  omega

theorem good_invariant : DecoderInvariant Stream.Good fun answer s => answer.Goes → s.Good where
  header before leads good :=
    leads.good (good.clean before.outside.1 before.outside.2.1) before.outside.2.2
  window here leads _ good := leads.good (good.clean (by rw [here]; decide) (by rw [here]; decide)) (by decide)
  waits := by
    intro s s' here unmoved good _
    have outside : s.decState ∉ DecState.sections ∧ s.decState ≠ .emit := by
      revert here
      generalize s.decState = state
      cases state <;> decide
    exact unmoved.good (good.clean outside.1 outside.2) outside.1
  fails _ _ goes := goes.elim
  overruns _ goes := goes.elim
  announced := by
    intro s s' here leads good
    have clean := good.clean (by rw [here]; decide) (by rw [here]; decide)
    have good' : s'.Good :=
      ⟨fun outside => absurd (leads.decState ▸ by decide) outside, fun _ => leads.tallied clean⟩
    exact ⟨fun _ => good', fun _ => good'⟩
  sections := by
    intro s within good
    cases taken : takeSections s with
    | ok s' => exact .emit (sectionsCase_ok (by rw [sectionsCase_within within, taken]))
    | error returned =>
      obtain ⟨answer, s'⟩ := returned
      intro goes
      have defined : ¬Undefined (takeSections s) := by
        rintro ⟨_, undefined⟩
        rw [taken] at undefined
        cases undefined
        exact goes
      rw [takeSections_eq defined] at taken
      cases sections : gatherSections s with
      | error returned =>
        rw [sections] at taken
        cases taken
        have part := gatherSections_part within sections
        have tallied := part.taken.tallied (good.tallied within)
        obtain rfl := gatherSections_waits sections
        have stays := gatherSections_carriesOn.stays sections
        have within' : s'.decState ∈ DecState.sections := by
          rcases stays.decState with same | ⟨-, within'⟩
          · exact same ▸ within
          · exact within'
        exact ⟨fun outside => absurd within' outside, fun _ => tallied⟩
      | ok s1 =>
        rw [sections] at taken
        exact absurd goes (setupBuffers_stops taken)
  emits := by
    intro s here good
    have state : s.placed.decState = .emit := by
      unfold Stream.placed
      split <;> exact here
    intro _
    split
    · exact ⟨fun _ _ => ⟨rfl, fun _ => rfl⟩, fun within => absurd within (show DecState.finish ∉ DecState.sections by decide)⟩
    · exact .emit state
  finishes := by
    intro s here good goes
    have clean := good.clean (by rw [here]; decide) (by rw [here]; decide)
    exact ⟨fun _ _ => clean, fun within => absurd within (show DecState.winInd ∉ DecState.sections by decide)⟩

theorem takeSections_waits (taken : takeSections s = .error (.input, s')) :
    gatherSections s = .error (.input, s') := by
  rw [takeSections_eq (defined_of_error taken nofun)] at taken
  cases sections : gatherSections s with
  | error returned =>
    rw [sections] at taken
    exact taken
  | ok mid =>
    rw [sections] at taken
    exact absurd taken setupBuffers_steady.never

/-- The lengths of the sections are those that a stream began with. -/
structure Keeps (s t : Stream) : Prop where
  within : t.decState ∈ DecState.sections → s.decState ∈ DecState.sections ∧ t.total = s.total

theorem Keeps.outside (outside : s'.decState ∉ DecState.sections) : Keeps s s' := ⟨fun within => absurd within outside⟩

theorem keeps_invariant (s : Stream) : DecoderInvariant (Keeps s) fun answer t => answer = .input → Keeps s t where
  header before leads _ := .outside (leads.decState ▸ before.outside.2.2)
  window _ leads _ _ := .outside (leads.decState ▸ by decide)
  waits := by
    intro t t' here unmoved _ _
    have outside : t.decState ∉ DecState.sections := by
      revert here
      generalize t.decState = state
      cases state <;> decide
    exact .outside (unmoved.decState ▸ outside)
  fails _ _ input := by cases input
  overruns _ input := by cases input
  announced _ _ _ := ⟨fun input => (by cases input), fun input => (by cases input)⟩
  sections := by
    intro t within keeps
    cases taken : takeSections t with
    | ok t' =>
      have emit : t'.decState = .emit := sectionsCase_ok (by rw [sectionsCase_within within, taken])
      exact .outside (emit ▸ by decide)
    | error returned =>
      obtain ⟨answer, t'⟩ := returned
      rintro rfl
      obtain ⟨before, total⟩ := keeps.within within
      exact ⟨fun _ => ⟨before, (gatherSections_part within (takeSections_waits taken)).taken.total.trans total⟩⟩
  emits := by
    intro t here _
    cases emitted : emitCase t with
    | ok t' => cases emitted
    | error returned =>
      obtain ⟨answer, t'⟩ := returned
      rintro rfl
      exact absurd emitted emitCase_steady.never
  finishes := by
    intro t here _ input
    cases input

/-- A wait leaves the lengths of the sections as they are. -/
theorem decodeInput_keeps (waited : decodeInput applyTableEncoding s = (.input, s')) : Keeps s s' := by
  have returned : (decodeInput applyTableEncoding s).1 = .input → Keeps s (decodeInput applyTableEncoding s).2 :=
    (keeps_invariant s).decodeInput ⟨fun within => ⟨within, rfl⟩⟩
  rw [waited] at returned
  exact returned rfl

theorem decodeInput_good (good : s.Good) (returned : decodeInput applyTableEncoding s = (answer, s'))
    (goes : answer.Goes) : s'.Good := by
  have kept : (decodeInput applyTableEncoding s).1.Goes → (decodeInput applyTableEncoding s).2.Good :=
    good_invariant.decodeInput good
  rw [returned] at kept
  exact kept goes

end Good

end OpenDelta.Vcdiff
