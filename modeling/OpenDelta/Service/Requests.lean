import OpenDelta.Service.Documents
import OpenDelta.Data.Runs

/-!
# Requests for a check

`checkForUpdates` on the main thread and the runnables it posts to the handler
thread, as atomic steps of both threads over a shared state. A runnable sets
`updateRunning` only once it runs, so what keeps the checks apart is that no
request arrives between the post and that moment (`atMostOne_iff`).
-/

namespace OpenDelta.Service

/-- `PREF_AUTO_DOWNLOAD_DISABLED`. -/
def autoDownloadDisabled : Int := 0

/-- What a request finds: the listeners are there, the version is official, and
their answers. -/
structure Listeners where
  present : Bool
  isSupportedVersion : Bool
  isConnected : Bool
  networkState : Bool
  batteryState : Bool
  isScreenStateEnabled : Bool

namespace Listeners

variable (L : Listeners)

/-- `updateAllowed`, with the `checkOnly` it leads to. -/
def allowed (args : Args) : Option Args :=
  if args.userInitiated then some args
  else if autoDownloadCheck < args.checkOnly then
    if L.networkState && L.batteryState && L.isScreenStateEnabled then some args
    -- "fallback to check only"
    else some { args with checkOnly := autoDownloadCheck }
  else if autoDownloadCheck ≤ args.checkOnly then some args
  else none

/-- The request passes every test but the busy flag. -/
def admits (args : Args) : Bool :=
  L.present && L.isSupportedVersion && L.isConnected && (L.allowed args).isSome

end Listeners

/-- `checkForUpdates`: the arguments of the runnable it posts, if it does. -/
def checkForUpdates (L : Listeners) (args : Args) (w : World) : Option Args × World :=
  if !L.present then (none, w)
  else if w.updateRunning then (none, w)
  else if !L.isSupportedVersion then (none, w.updateState .errorUnofficial)
  else if !L.isConnected then (none, w.updateState .errorConnection)
  else
    match L.allowed args with
    | some args => (some args, w.updateState .checking)
    | none => (none, w)

variable {L : Listeners} {args : Args} {w : World}

theorem checkForUpdates_updateRunning : (checkForUpdates L args w).2.updateRunning = w.updateRunning := by
  unfold checkForUpdates
  repeat' split
  all_goals rfl

/-- While the flag is set a request changes nothing. -/
theorem checkForUpdates_of_busy (busy : w.updateRunning = true) : checkForUpdates L args w = (none, w) := by
  rw [checkForUpdates, if_pos busy, ite_self]

variable (L args) in
/-- Without it, the request posts a runnable exactly when it passes the tests. -/
theorem checkForUpdates_isSome (idle : w.updateRunning = false) :
    (checkForUpdates L args w).1.isSome = L.admits args := by
  unfold checkForUpdates Listeners.admits
  cases L.present
  · rfl
  · cases L.isSupportedVersion
    · simp [idle]
    · cases L.isConnected
      · simp [idle]
      · cases L.allowed args <;> simp [idle]

/-! ## The two threads -/

/-- The handler thread: between two messages, with a runnable it has taken from
the queue, and in one that has set `updateRunning`. -/
inductive Handler where
  | idle
  | taken (args : Args)
  | running (args : Args)

/-- What the threads share. -/
structure Threads where
  world : World
  stopDownload : Bool
  posted : List Args
  handler : Handler

/-- One step of a thread. The first three are requests; `change` is whatever else
either thread does to the world. -/
inductive Action where
  | check (L : Listeners)
  | build (L : Listeners)
  | wantUpdateCheck (autoDownload : Int) (L : Listeners)
  | stopDownload
  | change (w : World)
  | take
  | begin
  | finish

namespace Action

/-- The call of `checkForUpdates` an action makes. -/
def request : Action → Option (Listeners × Args)
  | check L => some (L, ⟨true, autoDownloadCheck⟩)
  | build L => some (L, ⟨true, autoDownloadFull⟩)
  | wantUpdateCheck autoDownload L =>
    if autoDownload ≠ autoDownloadDisabled then some (L, ⟨false, autoDownload⟩) else none
  | _ => none

end Action

namespace Threads

/-- Nothing posted, nothing running. -/
def idle (w : World) : Threads where
  world := { w with updateRunning := false }
  stopDownload := false
  posted := []
  handler := .idle

def request (t : Threads) (call : Option (Listeners × Args)) : Threads :=
  match call with
  | none => t
  | some (L, args) =>
    { t with
      world := (checkForUpdates L args t.world).2
      posted := t.posted ++ (checkForUpdates L args t.world).1.toList }

/-- A step, where it can be taken. -/
def step (t : Threads) : Action → Option Threads
  | .check L => some (t.request (Action.check L).request)
  | .build L => some (t.request (Action.build L).request)
  | .wantUpdateCheck autoDownload L => some (t.request (Action.wantUpdateCheck autoDownload L).request)
  | .stopDownload => some { t with stopDownload := true }
  | .change w => some { t with world := { w with updateRunning := t.world.updateRunning } }
  | .take =>
    match t.handler, t.posted with
    | .idle, args :: posted => some { t with posted, handler := .taken args }
    | _, _ => none
  | .begin =>
    match t.handler with
    | .taken args => some { t with stopDownload := false, world := start t.world, handler := .running args }
    | _ => none
  | .finish =>
    match t.handler with
    | .running _ => some { t with world := { t.world with updateRunning := false }, handler := .idle }
    | _ => none

/-- The check runnables that are posted or executing. -/
def unfinished (t : Threads) : Nat :=
  t.posted.length +
    match t.handler with
    | .idle => 0
    | _ => 1

def AtMostOne (t : Threads) : Prop := t.unfinished ≤ 1

instance (t : Threads) : Decidable t.AtMostOne := inferInstanceAs (Decidable (_ ≤ 1))

/-- A runnable is on its way and has not yet set `updateRunning`. -/
def Awaited (t : Threads) : Prop := t.posted ≠ [] ∨ ∃ args, t.handler = .taken args

/-- The action is no request that passes the tests while a runnable is awaited. -/
def Timely (t : Threads) (action : Action) : Prop :=
  ∀ L args, action.request = some (L, args) → L.admits args = true → ¬ t.Awaited

/-- The flag says whether a runnable is running. -/
def Flagged (t : Threads) : Prop := t.world.updateRunning = true ↔ ∃ args, t.handler = .running args

variable {t t' : Threads} {action : Action}

theorem step_of_request (call : Listeners × Args) (requests : action.request = some call) :
    t.step action = some (t.request (some call)) := by
  cases action with
  | check L => rw [← requests]; rfl
  | build L => rw [← requests]; rfl
  | wantUpdateCheck autoDownload L => rw [← requests]; rfl
  | stopDownload => cases requests
  | change w => cases requests
  | take => cases requests
  | begin => cases requests
  | finish => cases requests

/-- What a step does to queue, handler and flag: a request may post a runnable,
and a runnable is taken, begins and ends. -/
inductive Moves (t : Threads) (action : Action) : Threads → Prop where
  | requested (L : Listeners) (args : Args) (call : action.request = some (L, args)) :
      Moves t action (t.request (some (L, args)))
  | quiet (t' : Threads) (posted : t'.posted = t.posted) (handler : t'.handler = t.handler)
      (flag : t'.world.updateRunning = t.world.updateRunning) : Moves t action t'
  | taken (args : Args) (posted : List Args) (idle : t.handler = .idle) (queue : t.posted = args :: posted) :
      Moves t action { t with posted, handler := .taken args }
  | begun (args : Args) (before : t.handler = .taken args) :
      Moves t action { t with stopDownload := false, world := start t.world, handler := .running args }
  | finished (args : Args) (running : t.handler = .running args) :
      Moves t action { t with world := { t.world with updateRunning := false }, handler := .idle }

theorem step_moves (taken : t.step action = some t') : Moves t action t' := by
  cases call : action.request with
  | some requested =>
    rw [step_of_request requested call, Option.some.injEq] at taken
    subst taken
    exact .requested requested.1 requested.2 call
  | none =>
    cases action with
    | check L => cases call
    | build L => cases call
    | wantUpdateCheck autoDownload L =>
      rw [step, call, Option.some.injEq] at taken
      exact .quiet t' (by rw [← taken]; rfl) (by rw [← taken]; rfl) (by rw [← taken]; rfl)
    | stopDownload =>
      cases taken
      exact .quiet _ rfl rfl rfl
    | change w =>
      cases taken
      exact .quiet _ rfl rfl rfl
    | take =>
      simp only [step] at taken
      split at taken
      · cases taken
        exact .taken _ _ ‹_› ‹_›
      · cases taken
    | begin =>
      simp only [step] at taken
      split at taken
      · cases taken
        exact .begun _ ‹_›
      · cases taken
    | finish =>
      simp only [step] at taken
      split at taken
      · cases taken
        exact .finished _ ‹_›
      · cases taken

/-- A request while a runnable runs posts nothing; any other posts one runnable
if it passes the tests. -/
theorem request_posted (L : Listeners) (args : Args) : (t.request (some (L, args))).posted.length =
    t.posted.length + if t.world.updateRunning = false ∧ L.admits args = true then 1 else 0 := by
  simp only [request, List.length_append]
  cases flag : t.world.updateRunning with
  | true => simp [checkForUpdates_of_busy flag]
  | false =>
    have posts := checkForUpdates_isSome L args flag
    rw [← posts]
    cases (checkForUpdates L args t.world).1 <;> simp

theorem step_flagged (flagged : t.Flagged) (taken : t.step action = some t') : t'.Flagged := by
  cases step_moves taken with
  | requested L args call =>
    simp only [Flagged, request, checkForUpdates_updateRunning]
    exact flagged
  | quiet t' posted handler flag =>
    simp only [Flagged, handler, flag]
    exact flagged
  | taken args posted idle queue =>
    simp only [Flagged, idle] at flagged
    simpa [Flagged] using flagged
  | begun args before => simp [Flagged, start]
  | finished args running => simp [Flagged]

/-- A timely action keeps the checks to one. -/
theorem step_atMostOne (inv : t.Flagged ∧ t.AtMostOne) (timely : t.Timely action)
    (taken : t.step action = some t') : t'.Flagged ∧ t'.AtMostOne := by
  refine ⟨step_flagged inv.1 taken, ?_⟩
  have atMost := inv.2
  simp only [AtMostOne, unfinished] at atMost ⊢
  cases step_moves taken with
  | requested L args call =>
    rw [request_posted]
    split
    · next posts =>
      have arrived := timely L args call posts.2
      have notRunning : ¬ ∃ args, t.handler = .running args := by
        intro running
        rw [inv.1.mpr running] at posts
        exact Bool.false_ne_true posts.1.symm
      have empty : t.posted = [] := by
        by_contra waiting
        exact arrived (.inl waiting)
      cases handler : t.handler with
      | idle => simp [request, empty, handler]
      | taken args => exact absurd (.inr ⟨args, handler⟩) arrived
      | running args => exact absurd ⟨args, handler⟩ notRunning
    · exact atMost
  | quiet t' posted handler flag =>
    rw [posted, handler]
    exact atMost
  | taken args posted idle queue => simpa [queue, idle] using atMost
  | begun args before => simpa [before] using atMost
  | finished args running =>
    simp only [running] at atMost
    show t.posted.length ≤ 1
    omega

/-- A request that is not timely leaves two runnables. -/
theorem not_atMostOne_of_untimely (flagged : t.Flagged) (untimely : ¬ t.Timely action)
    (atMost : t.AtMostOne) : ∃ t', t.step action = some t' ∧ ¬ t'.AtMostOne := by
  simp only [Timely, not_forall, not_not] at untimely
  obtain ⟨L, args, call, admitted, awaited⟩ := untimely
  refine ⟨_, step_of_request (L, args) call, ?_⟩
  have waiting : 1 ≤ t.unfinished ∧ ¬ ∃ args, t.handler = .running args := by
    simp only [AtMostOne, unfinished] at atMost ⊢
    rcases awaited with posted | ⟨args, taken⟩
    · have some := List.length_pos_of_ne_nil posted
      constructor
      · omega
      · rintro ⟨args, running⟩
        simp only [running] at atMost
        omega
    · simp [taken]
  have idle : t.world.updateRunning = false := by
    rw [← Bool.not_eq_true]
    exact fun running => waiting.2 (flagged.mp running)
  have posted := request_posted (t := t) L args
  rw [if_pos ⟨idle, admitted⟩] at posted
  have kept : (t.request (some (L, args))).handler = t.handler := rfl
  simp only [AtMostOne, unfinished, posted, kept] at waiting ⊢
  omega

theorem idle_flagged (w : World) : (idle w).Flagged := by simp [Flagged, idle]

theorem idle_atMostOne (w : World) : (idle w).AtMostOne := by simp [AtMostOne, unfinished, idle]

/-- **One check at a time**, in a run of the two threads, exactly when no request
is admitted between the post of a runnable and its first step. -/
theorem atMostOne_iff (w : World) (actions : List Action) :
    (∀ t, Visits step (idle w) actions t → t.AtMostOne) ↔
      ∀ t action, Takes step (idle w) actions t action → t.Timely action := by
  constructor
  · intro atMost t action takes
    by_contra untimely
    have flagged := takes.visits.stable (fun _ _ _ inv taken => step_flagged inv taken) (idle_flagged w)
    obtain ⟨t', taken, two⟩ := not_atMostOne_of_untimely flagged untimely (atMost t takes.visits)
    exact two (atMost t' (takes.visits_next taken))
  · intro timely t visits
    exact (visits.invariant (fun t => t.Flagged ∧ t.AtMostOne) (fun _ _ _ inv ok taken => step_atMostOne inv ok taken)
      ⟨idle_flagged w, idle_atMostOne w⟩ timely).2

/-- Nothing keeps a request from being admitted. -/
def allGranted : Listeners := ⟨true, true, true, true, true, true⟩

/-- Two taps in a row, before the handler thread comes to its first message, post
two checks. -/
theorem two_checks : ∃ t, Visits step (idle (.idle [])) [.check allGranted, .check allGranted] t ∧ ¬ t.AtMostOne := by
  refine ⟨_, .later rfl (.later rfl (.here _ _)), ?_⟩
  decide

end Threads

/-! ## The runnable as a run of the handler thread -/

variable {E : Env} {C : Conditions} {fuel : Nat} {w' : World}

theorem run_finished (finished : run E C args fuel w = some (.finished w')) : w'.updateRunning = false := by
  simp only [run, Option.map_eq_some_iff] at finished
  obtain ⟨exit, -, settled⟩ := finished
  have concluded : ∀ w, conclude E C args w = .finished w' → w'.updateRunning = false := by
    intro w
    simp only [conclude]
    split
    · next normal =>
      intro ends
      cases ends
      revert normal
      unfold runFinally
      simp only
      split
      · exact fun _ => rfl
      · split
        · exact fun _ => rfl
        · exact fun normal => absurd normal Bool.false_ne_true
    · intro ends
      cases ends
  cases exit with
  | returned w => exact concluded w settled
  | continued full w => exact concluded w settled
  | threw w => cases settled
  | aborted w => cases settled

/-- A runnable that is taken and ends normally: its first step, its effects, and
the end of its `finally` block. -/
theorem run_visits (t : Threads) (args : Args) (taken : t.handler = .taken args)
    (finished : run E C args fuel t.world = some (.finished w')) :
    Visits Threads.step t [.begin, .change w', .finish]
      { t with stopDownload := false, world := w', handler := .idle } := by
  have cleared : { w' with updateRunning := false } = w' := by
    rw [← run_finished finished]
  have begins : t.step .begin =
      some { t with stopDownload := false, world := start t.world, handler := .running args } := by
    simp only [Threads.step, taken]
  rw [← cleared]
  exact .later begins (.later rfl (.later rfl (.here _ _)))

end OpenDelta.Service
