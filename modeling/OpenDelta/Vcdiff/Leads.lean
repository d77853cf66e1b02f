import OpenDelta.Vcdiff.Decode

/-!
# Where a case leads

What a case of the headers does to the state, to the input and to what a window is
decoded from: it goes on to the next case (`Leads`), it waits where it is, or it fails
(`Rests`).
-/

namespace OpenDelta.Vcdiff

/-! ## What a step comes to -/

section Meeting

variable {α β : Type} {Q : α → Prop} {Q' : β → Prop} {E : Answer → Stream → Prop}

/-- What is true when a step goes on, and what when it returns. -/
def Meets (Q : α → Prop) (E : Answer → Stream → Prop) : Step α → Prop
  | .ok a => Q a
  | .error (answer, s) => E answer s

theorem Meets.ok {step : Step α} {a : α} (meets : Meets Q E step) (ok : step = .ok a) : Q a := by
  rw [ok] at meets
  exact meets

theorem Meets.error {step : Step α} {answer : Answer} {s : Stream} (meets : Meets Q E step)
    (error : step = .error (answer, s)) : E answer s := by
  rw [error] at meets
  exact meets

theorem Meets.bind {step : Step α} {next : α → Step β} (meets : Meets Q E step) (then_ : ∀ a, Q a → Meets Q' E (next a)) :
    Meets Q' E (step >>= next) := by
  cases step with
  | ok a => exact then_ a meets
  | error returned => exact meets

theorem Meets.mono {Q₁ : α → Prop} {step : Step α} (meets : Meets Q E step) (le : ∀ a, Q a → Q₁ a) : Meets Q₁ E step := by
  cases step with
  | ok a => exact le a meets
  | error returned => exact meets

theorem Meets.weaken {E' : Answer → Stream → Prop} {step : Step α} (meets : Meets Q E step)
    (le : ∀ answer s, E answer s → E' answer s) : Meets Q E' step := by
  cases step with
  | ok a => exact meets
  | error returned => exact le _ _ meets

theorem Meets.unless {cond : Prop} [Decidable cond] {code : Code} {msg : String} {s : Stream} {step : Step α}
    (fails : ∀ failure s, E (.fails failure) s) (meets : Meets Q E step) :
    Meets Q E (if cond then refuse code msg s else step) := by
  split
  · exact fails _ _
  · exact meets

end Meeting

/-! ## The headers -/

section Leading

/-- A case of the headers sets the state and leaves the sections, the instructions, the
output and its buffers as they are. -/
structure Leads (nstate : DecState) (s s' : Stream) : Prop where
  decState : s'.decState = nstate
  input : s'.input.length ≤ s.input.length
  winbytes : s'.winbytes = s.winbytes
  filled : ∀ name, (s'.sect name).pos = (s.sect name).pos ∧ (s'.sect name).buf = (s.sect name).buf
  current1 : s'.body.current1 = s.body.current1
  current2 : s'.body.current2 = s.body.current2
  out : s'.body.out = s.body.out
  buffers : s'.buffers = s.buffers

variable {s s' : Stream} {nstate : DecState}

/-- What leaves all of this as it is. -/
def Unmoved (s s' : Stream) : Prop := Leads s.decState s s'

theorem Unmoved.refl (s : Stream) : Unmoved s s := ⟨rfl, Nat.le_refl _, rfl, fun _ => ⟨rfl, rfl⟩, rfl, rfl, rfl, rfl⟩

theorem Leads.trans {mid : Stream} (first : Leads nstate s mid) (second : Unmoved mid s') : Leads nstate s s' where
  decState := second.decState.trans first.decState
  input := Nat.le_trans second.input first.input
  winbytes := second.winbytes.trans first.winbytes
  filled name := ⟨(second.filled name).1.trans (first.filled name).1, (second.filled name).2.trans (first.filled name).2⟩
  current1 := second.current1.trans first.current1
  current2 := second.current2.trans first.current2
  out := second.out.trans first.out
  buffers := second.buffers.trans first.buffers

/-- The state is set behind what leaves everything as it is. -/
theorem Unmoved.leads {mid : Stream} (unmoved : Unmoved s mid) (nstate : DecState) :
    Leads nstate s { mid with decState := nstate } :=
  ⟨rfl, unmoved.input, unmoved.winbytes, unmoved.filled, unmoved.current1, unmoved.current2, unmoved.out, unmoved.buffers⟩

/-- The returns of the headers: a wait, which leaves everything as it is, or a failure. -/
inductive Rests (s : Stream) : Answer → Stream → Prop where
  | waits {s' : Stream} : Unmoved s s' → Rests s .input s'
  | fails (failure : Failure) (s' : Stream) : Rests s (.fails failure) s'

theorem decodeInteger_shorter {oflow part val : Nat} {input rest : Bytes}
    (decoded : decodeInteger oflow part input = .value val rest) : rest.length < input.length := by
  induction input generalizing part with
  | nil => cases decoded
  | cons next input ih =>
    rw [decodeInteger] at decoded
    split at decoded
    · cases decoded
    split at decoded
    · cases decoded
      exact Nat.lt_succ_self _
    · exact Nat.lt_succ_of_lt (ih decoded)

/-- A value has been taken, of at least one byte. -/
structure Bitten (s : Stream) (taken : Nat × Stream) : Prop where
  unmoved : Unmoved s taken.2
  less : taken.2.input.length < s.input.length

/-- A reader takes at least one byte, and nothing else. -/
def Bites (take : Stream → Step (Nat × Stream)) : Prop := ∀ s, Meets (Bitten s) (Rests s) (take s)

theorem bites_byte : Bites takeByte := by
  intro s
  unfold takeByte
  split
  · exact .waits (.refl s)
  · rename_i b input eq
    have less : input.length < s.input.length := by
      rw [eq]
      exact Nat.lt_succ_self _
    exact ⟨⟨rfl, Nat.le_of_lt less, rfl, fun _ => ⟨rfl, rfl⟩, rfl, rfl, rfl, rfl⟩, less⟩

theorem bites_size : Bites takeSize := by
  intro s
  unfold takeSize
  split
  · rename_i eq
    have less := decodeInteger_shorter eq
    exact ⟨⟨rfl, Nat.le_of_lt less, rfl, fun _ => ⟨rfl, rfl⟩, rfl, rfl, rfl, rfl⟩, less⟩
  · exact .waits ⟨rfl, Nat.zero_le _, rfl, fun _ => ⟨rfl, rfl⟩, rfl, rfl, rfl, rfl⟩
  · exact .fails _ _

theorem bites_offset : Bites takeOffset := by
  intro s
  unfold takeOffset
  split
  · rename_i eq
    have less := decodeInteger_shorter eq
    exact ⟨⟨rfl, Nat.le_of_lt less, rfl, fun _ => ⟨rfl, rfl⟩, rfl, rfl, rfl, rfl⟩, less⟩
  · exact .waits ⟨rfl, Nat.zero_le _, rfl, fun _ => ⟨rfl, rfl⟩, rfl, rfl, rfl, rfl⟩
  · exact .fails _ _

theorem takeCase_meets {take : Stream → Step (Nat × Stream)} {expr : Bool} {store : Stream → Nat → Stream}
    (bites : Bites take) (stored : ∀ s v, Unmoved s (store s v)) :
    Meets (Leads nstate s) (Rests s) (takeCase take expr store nstate s) := by
  unfold takeCase
  split
  · apply (bites s).bind
    rintro ⟨v, mid⟩ bitten
    have unmoved : Unmoved s (store mid v) := bitten.unmoved.trans (stored mid v)
    exact unmoved.leads nstate
  · exact (Unmoved.refl s).leads nstate

theorem takeBytes_meets {got : Bytes} {size : Nat} {store : Stream → Bytes → Stream}
    (stored : ∀ s bytes, Unmoved s (store s bytes)) : Meets (Unmoved s) (Rests s) (takeBytes got size store s) := by
  have unmoved : Unmoved s (store { s with input := s.input.drop (size - got.length) }
      (got ++ s.input.take (size - got.length))) := by
    obtain ⟨decState, input, winbytes, filled, current1, current2, out, buffers⟩ :=
      stored { s with input := s.input.drop (size - got.length) } (got ++ s.input.take (size - got.length))
    exact ⟨decState, Nat.le_trans input (by simp), winbytes, filled, current1, current2, out, buffers⟩
  unfold takeBytes
  dsimp only
  split
  · exact .waits unmoved
  · exact unmoved

theorem vcHeadCase_meets : Meets (Leads .hdrInd s) (Rests s) (vcHeadCase s) := by
  refine Meets.bind (takeBytes_meets fun _ _ => ⟨rfl, Nat.le_refl _, rfl, fun _ => ⟨rfl, rfl⟩, rfl, rfl, rfl, rfl⟩) ?_
  intro mid unmoved
  apply Meets.unless Rests.fails
  exact Meets.unless Rests.fails (unmoved.leads .hdrInd)

theorem hdrIndCase_meets : Meets (Leads .secondId s) (Rests s) (hdrIndCase s) := by
  apply (bites_byte s).bind
  rintro ⟨v, mid⟩ ⟨unmoved, -⟩
  exact Meets.unless Rests.fails
    ⟨rfl, unmoved.input, unmoved.winbytes, unmoved.filled, unmoved.current1, unmoved.current2, unmoved.out, unmoved.buffers⟩

theorem secondIdCase_meets : Meets (fun s' => s.secondary = false ∧ s' = s) (Rests s) (secondIdCase s) := by
  unfold secondIdCase
  split
  · refine Meets.bind (takeCase_meets bites_byte fun _ _ => ⟨rfl, Nat.le_refl _, rfl, fun _ => ⟨rfl, rfl⟩, rfl, rfl, rfl, rfl⟩) ?_
    intro mid _
    exact .fails _ _
  · exact ⟨Bool.eq_false_iff.mpr (by assumption), rfl⟩

theorem tabLenCase_meets : Meets (Leads .near s) (Rests s) (tabLenCase s) := by
  refine Meets.bind (takeCase_meets bites_size fun _ _ => ⟨rfl, Nat.le_refl _, rfl, fun _ => ⟨rfl, rfl⟩, rfl, rfl, rfl, rfl⟩) ?_
  intro mid leads
  split
  · apply Meets.unless Rests.fails
    exact leads.trans ⟨rfl, Nat.le_refl _, rfl, fun _ => ⟨rfl, rfl⟩, rfl, rfl, rfl, rfl⟩
  · exact leads

theorem nearCase_meets : Meets (Leads .same s) (Rests s) (nearCase s) :=
  takeCase_meets bites_byte fun _ _ => ⟨rfl, Nat.le_refl _, rfl, fun _ => ⟨rfl, rfl⟩, rfl, rfl, rfl, rfl⟩

theorem sameCase_meets : Meets (Leads .tabDat s) (Rests s) (sameCase s) :=
  takeCase_meets bites_byte fun _ _ => ⟨rfl, Nat.le_refl _, rfl, fun _ => ⟨rfl, rfl⟩, rfl, rfl, rfl, rfl⟩

theorem useTable_meets {applyTableEncoding : Nat → Nat → Bytes → Except Failure (List Dinst)} :
    Meets (Unmoved s) (Rests s) (useTable applyTableEncoding s) := by
  unfold useTable
  split
  · refine Meets.bind (takeBytes_meets fun _ _ => ⟨rfl, Nat.le_refl _, rfl, fun _ => ⟨rfl, rfl⟩, rfl, rfl, rfl, rfl⟩) ?_
    intro mid unmoved
    cases applyTableEncoding mid.body.acache.sNear mid.body.acache.sSame mid.codetbl with
    | ok codeTable => exact unmoved.trans ⟨rfl, Nat.le_refl _, rfl, fun _ => ⟨rfl, rfl⟩, rfl, rfl, rfl, rfl⟩
    | error failure => exact .fails failure mid
  · exact ⟨rfl, Nat.le_refl _, rfl, fun _ => ⟨rfl, rfl⟩, rfl, rfl, rfl, rfl⟩

theorem tabDatCase_meets {applyTableEncoding : Nat → Nat → Bytes → Except Failure (List Dinst)} :
    Meets (Leads .appLen s) (Rests s) (tabDatCase applyTableEncoding s) :=
  useTable_meets.bind fun _ unmoved => unmoved.leads .appLen

theorem appLenCase_meets : Meets (Leads .appDat s) (Rests s) (appLenCase s) :=
  takeCase_meets bites_size fun _ _ => ⟨rfl, Nat.le_refl _, rfl, fun _ => ⟨rfl, rfl⟩, rfl, rfl, rfl, rfl⟩

/-- There is a byte for the zero behind the header of the application. -/
def Stream.Headed (s : Stream) : Prop := s.appheaded = true → s.appheadsz < usize (s.appheadsz + 1)

/-- The returns of the header of the application. -/
def Overruns (s : Stream) (answer : Answer) (s' : Stream) : Prop :=
  Rests s answer s' ∨ answer = .undefined ∧ ¬s'.Headed

theorem appDatCase_meets : Meets (Leads .winInd s) (Overruns s) (appDatCase s) := by
  have taken : Meets (Unmoved s) (Overruns s) (whenever s.appheaded readAppheader s) := by
    unfold whenever readAppheader
    split
    · rename_i headed
      split
      · rename_i round
        exact .inr ⟨rfl, fun fits => absurd (fits headed) (Nat.not_lt.mpr round)⟩
      · have read : Meets (Unmoved s) (Rests s)
            (takeBytes s.appheader s.appheadsz (fun s appheader => { s with appheader }) s) :=
          takeBytes_meets fun _ _ => ⟨rfl, Nat.le_refl _, rfl, fun _ => ⟨rfl, rfl⟩, rfl, rfl, rfl, rfl⟩
        exact read.weaken fun _ _ => .inl
    · exact Unmoved.refl s
  exact taken.bind fun _ unmoved => unmoved.leads .winInd

/-- A window takes at least its first byte. -/
theorem winIndCase_meets :
    Meets (fun s' => Leads .cpyLen s s' ∧ s'.input.length < s.input.length) (Rests s) (winIndCase s) := by
  apply (bites_byte s).bind
  rintro ⟨v, mid⟩ ⟨unmoved, less⟩
  apply Meets.unless Rests.fails
  apply Meets.unless Rests.fails
  exact ⟨⟨rfl, unmoved.input, unmoved.winbytes, unmoved.filled, unmoved.current1, unmoved.current2, unmoved.out,
    unmoved.buffers⟩, less⟩

theorem cpyLenCase_meets : Meets (Leads .cpyOff s) (Rests s) (cpyLenCase s) := by
  refine Meets.bind (takeCase_meets bites_size fun _ _ => ⟨rfl, Nat.le_refl _, rfl, fun _ => ⟨rfl, rfl⟩, rfl, rfl, rfl, rfl⟩) ?_
  intro mid leads
  exact leads.trans ⟨rfl, Nat.le_refl _, rfl, fun _ => ⟨rfl, rfl⟩, rfl, rfl, rfl, rfl⟩

theorem cpyOffCase_meets : Meets (Leads .encLen s) (Rests s) (cpyOffCase s) := by
  refine Meets.bind (takeCase_meets bites_offset fun _ _ => ⟨rfl, Nat.le_refl _, rfl, fun _ => ⟨rfl, rfl⟩, rfl, rfl, rfl, rfl⟩) ?_
  intro mid leads
  exact Meets.unless Rests.fails (Meets.unless Rests.fails leads)

theorem encLenCase_meets : Meets (Leads .tgtLen s) (Rests s) (encLenCase s) :=
  takeCase_meets bites_size fun _ _ => ⟨rfl, Nat.le_refl _, rfl, fun _ => ⟨rfl, rfl⟩, rfl, rfl, rfl, rfl⟩

theorem tgtLenCase_meets : Meets (Leads .delInd s) (Rests s) (tgtLenCase s) := by
  refine Meets.bind (takeCase_meets bites_size fun _ _ => ⟨rfl, Nat.le_refl _, rfl, fun _ => ⟨rfl, rfl⟩, rfl, rfl, rfl, rfl⟩) ?_
  intro mid leads
  apply Meets.unless Rests.fails
  apply Meets.unless Rests.fails
  exact leads.trans ⟨rfl, Nat.le_refl _, rfl, fun _ => ⟨rfl, rfl⟩, rfl, rfl, rfl, rfl⟩

theorem delIndCase_meets : Meets (Leads .dataLen s) (Rests s) (delIndCase s) := by
  refine Meets.bind (takeCase_meets bites_byte fun _ _ => ⟨rfl, Nat.le_refl _, rfl, fun _ => ⟨rfl, rfl⟩, rfl, rfl, rfl, rfl⟩) ?_
  intro mid leads
  exact Meets.unless Rests.fails (Meets.unless Rests.fails leads)

theorem sectLenCase_meets {name : SectName} : Meets (Leads nstate s) (Rests s) (sectLenCase name nstate s) := by
  refine takeCase_meets bites_size fun s v => ⟨rfl, Nat.le_refl _, rfl, fun other => ?_, rfl, rfl, rfl, rfl⟩
  show (if other = name then _ else _ : Section).pos = _ ∧ (if other = name then _ else _ : Section).buf = _
  split
  · rename_i same
    exact ⟨same ▸ rfl, same ▸ rfl⟩
  · exact ⟨rfl, rfl⟩

/-- The header of a window ends with a return. -/
inductive Announced (s : Stream) : Answer → Stream → Prop where
  | rests {answer : Answer} {s' : Stream} : Rests s answer s' → Announced s answer s'
  | gotHeader {s' : Stream} : Leads .data s s' → Announced s .gotHeader s'
  | winStart {s' : Stream} : Leads .data s s' → Announced s .winStart s'

theorem ckSumCase_meets : Meets (fun _ => False) (Announced s) (ckSumCase s) := by
  have taken : Meets (Unmoved s) (Announced s) (whenever s.checksummed readCksum s) := by
    unfold whenever
    split
    · have read : Meets (Unmoved s) (Rests s) (readCksum s) := by
        refine Meets.bind (takeBytes_meets fun _ _ => ⟨rfl, Nat.le_refl _, rfl, fun _ => ⟨rfl, rfl⟩, rfl, rfl, rfl, rfl⟩) ?_
        intro mid unmoved
        exact unmoved.trans ⟨rfl, Nat.le_refl _, rfl, fun _ => ⟨rfl, rfl⟩, rfl, rfl, rfl, rfl⟩
      cases step : readCksum s with
      | ok mid => exact read.ok step
      | error returned => exact .rests (read.error step)
    · exact Unmoved.refl s
  apply taken.bind
  intro mid unmoved
  unfold ckSumCheck
  split
  · exact .rests (.fails _ _)
  · have leads := unmoved.leads .data
    by_cases first : mid.currentWindow = 0
    · rw [if_pos first]
      exact .gotHeader leads
    · rw [if_neg first]
      exact .winStart leads

end Leading

end OpenDelta.Vcdiff
