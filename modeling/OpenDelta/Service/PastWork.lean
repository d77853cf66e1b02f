import Mathlib.Data.List.TakeWhile
import OpenDelta.Service.InitialFile
import OpenDelta.Service.Leftovers

/-!
# Past work

"It will check each delta if we already have intermediate files present." The
search does find them, but takes none whose name is not that of the newest full
build, so a chain is cut only behind its last ZIP.
-/

namespace OpenDelta.Service

variable {E : Env} {C : Conditions} {args : Args} {files : FileStore} {latest : String}

/-- The ZIP of a delta is on the storage. -/
def OnStorage (E : Env) (files : FileStore) (d : DeltaInfo) : Prop :=
  (d.out.matchFile E.md5 files (E.config.getPathBase ++ d.out.name) true).isSome = true

instance (d : DeltaInfo) : Decidable (OnStorage E files d) := inferInstanceAs (Decidable (_ = true))

/-- `d` is the delta with the newest ZIP on the storage, and `after` the deltas behind it. -/
structure NewestWork (E : Env) (files : FileStore) (ds : List DeltaInfo) (d : DeltaInfo) (after : List DeltaInfo) :
    Prop where
  split : ∃ before, ds = before ++ d :: after
  here : OnStorage E files d
  last : ∀ d' ∈ after, ¬ OnStorage E files d'

theorem reusable_iff {d : DeltaInfo} : reusable E files latest d = true ↔
    OnStorage E files d ∧ d.out.name = latest := by
  rw [reusable, Bool.and_eq_true, beq_iff_eq, OnStorage, eq_comm (a := latest)]

/-! ## Trimming -/

theorem trimRevoked_eq_nil {ds : List DeltaInfo} : trimRevoked ds = [] ↔ ∀ d ∈ ds, d.revoked = true := by
  rw [trimRevoked, List.reverse_eq_nil_iff, List.dropWhile_eq_nil_iff]
  simp only [List.mem_reverse]

/-- What stands in front of a delta that stays is kept. -/
theorem trimRevoked_append {before after : List DeltaInfo} (stays : trimRevoked after ≠ []) :
    trimRevoked (before ++ after) = before ++ trimRevoked after := by
  have stops : ∃ d ∈ after.reverse, ¬ d.revoked = true := by
    by_contra none
    refine stays (trimRevoked_eq_nil.mpr fun d member => ?_)
    by_contra kept
    exact none ⟨d, List.mem_reverse.mpr member, kept⟩
  have cut : after.reverse.dropWhile (·.revoked) ≠ [] := by
    intro empty
    obtain ⟨d, member, kept⟩ := stops
    exact kept (List.dropWhile_eq_nil_iff.mp empty d member)
  rw [trimRevoked, List.reverse_append, List.dropWhile_append, if_neg (by simpa using cut), List.reverse_append,
    List.reverse_reverse, trimRevoked]

/-- Some deltas more in front change the trimmed list, unless nothing is left of either. -/
theorem trimRevoked_append_eq {before after : List DeltaInfo} (some : before ≠ []) :
    trimRevoked (before ++ after) = trimRevoked after ↔ ∀ d ∈ before ++ after, d.revoked = true := by
  constructor
  · intro same
    by_cases stays : trimRevoked after = []
    · exact trimRevoked_eq_nil.mp (same.trans stays)
    · rw [trimRevoked_append stays] at same
      exact absurd (List.append_left_eq_self.mp same) some
  · intro revoked
    rw [trimRevoked_eq_nil.mpr revoked, eq_comm, trimRevoked_eq_nil]
    exact fun d member => revoked d (List.mem_append_right _ member)

/-! ## What is left of a chain -/

/-- The deltas behind the newest ZIP that the search takes. -/
def remaining (E : Env) (files : FileStore) (latest : String) (ds : List DeltaInfo) : List DeltaInfo :=
  match findReusable E files latest ds with
  | some (_, rest) => rest
  | none => ds

theorem keptDeltas_eq (ds : List DeltaInfo) : keptDeltas E files latest ds = trimRevoked (remaining E files latest ds) := by
  unfold keptDeltas remaining
  cases findReusable E files latest ds <;> rfl

theorem findReusable_none {ds : List DeltaInfo} (others : ∀ d ∈ ds, reusable E files latest d = false) :
    findReusable E files latest ds = none := by
  induction ds with
  | nil => rfl
  | cons d ds ih =>
    rw [List.forall_mem_cons] at others
    rw [findReusable, ih others.2, others.1]
    rfl

/-- The search goes from the end. -/
theorem findReusable_append {before after : List DeltaInfo} {found : DeltaInfo × List DeltaInfo}
    (later : findReusable E files latest after = some found) :
    findReusable E files latest (before ++ after) = some found := by
  induction before with
  | nil => exact later
  | cons d before ih => rw [List.cons_append, findReusable, ih, Option.some_or]

/-- A match is taken where the search comes to one with the right name last. -/
theorem findReusable_here {d : DeltaInfo} {before after : List DeltaInfo} (here : reusable E files latest d = true)
    (last : ∀ d' ∈ after, reusable E files latest d' = false) :
    findReusable E files latest (before ++ d :: after) = some (d, after) := by
  refine findReusable_append ?_
  rw [findReusable, findReusable_none last, here]
  rfl

/-- The newest ZIP on the storage, where it has another name, is left in the chain. -/
theorem NewestWork.remaining_eq {ds : List DeltaInfo} {d : DeltaInfo} {after : List DeltaInfo}
    (work : NewestWork E files ds d after) (other : d.out.name ≠ latest) :
    ∃ between, remaining E files latest ds = between ++ d :: after := by
  obtain ⟨before, rfl⟩ := work.split
  have none : ∀ d' ∈ d :: after, reusable E files latest d' = false := by
    intro d' member
    rw [← Bool.not_eq_true, reusable_iff]
    rintro ⟨stored, name⟩
    rcases List.mem_cons.mp member with rfl | behind
    · exact other name
    · exact work.last d' behind stored
  unfold remaining
  cases found : findReusable E files latest (before ++ d :: after) with
  | none => exact ⟨before, rfl⟩
  | some result =>
    obtain ⟨r, rest⟩ := result
    obtain ⟨reuse, front, split⟩ := findReusable_some found
    -- the delta it has found stands in front of `d`
    rcases List.append_eq_append_iff.mp split with ⟨between, -, tail⟩ | ⟨between, -, tail⟩
    · have behind : r ∈ d :: after := by
        rw [tail]
        exact List.mem_append_right _ List.mem_cons_self
      exact nomatch (none r behind).symm.trans reuse
    · cases between with
      | nil =>
        cases tail
        exact nomatch (none d List.mem_cons_self).symm.trans reuse
      | cons r' between =>
        cases tail
        exact ⟨between, rfl⟩

/-! ## What a run works on -/

/-- The signature file of the last delta, where it is applied. -/
def signatureNames (E : Env) (last : DeltaInfo) : List String :=
  if E.config.applySignature then [last.signature.name] else []

/-- A run with this plan searches for the ZIP that the first of some deltas starts from,
and the files of these deltas are those it downloads and applies. -/
structure WorksOn (E : Env) (files : FileStore) (plan : Plan) (first : DeltaInfo) (rest : List DeltaInfo) : Prop where
  searches : (plan.initialFile, plan.needsProcessing) = findInitialFile E files first plan.flashFilename
  downloads : (plan.wanted E).map (fun f => f.name) =
    (first :: rest).map (fun d => d.update.name) ++ signatureNames E ((first :: rest).getLast (List.cons_ne_nil first rest))
  applies : patchSteps E plan.deltas plan.last plan.needsProcessing =
    patchSteps E (first :: rest) ((first :: rest).getLast (List.cons_ne_nil first rest)) plan.needsProcessing

variable (E files) in
/-- The names of the update files do not depend on the tags. -/
theorem tagDeltas_updateNames (ds : List DeltaInfo) :
    (tagDeltas E files ds).map (fun d => d.update.name) = ds.map fun d => d.update.name := by
  have same := congrArg (List.map fun d => d.update.name) (tagDeltas_untagged (E := E) files ds)
  rw [List.map_map, List.map_map] at same
  exact same

variable (E files) in
theorem makePlan_worksOn (first : DeltaInfo) (rest : List DeltaInfo) :
    WorksOn E files (makePlan E files first rest) first rest := by
  have names := tagDeltas_updateNames E files (first :: rest)
  obtain ⟨last, isLast, -, untagged⟩ := makePlan_last E files first rest
  have signed := DeltaInfo.signatureName_of_untagged untagged
  have last_eq : (first :: rest).getLast (List.cons_ne_nil first rest) = last :=
    Option.some.inj ((List.getLast?_eq_some_getLast _).symm.trans isLast)
  have steps (ds : List DeltaInfo) : ds.map (updateStep E) =
      (ds.map fun d => d.update.name).map fun name => .apply (E.config.getPathBase ++ name) := by
    rw [List.map_map]
    rfl
  refine ⟨rfl, ?_, ?_⟩
  · rw [last_eq, signatureNames, Plan.wanted, List.map_append, List.map_map, ← signed]
    refine congrArg₂ (· ++ ·) names ?_
    split <;> rfl
  · rw [last_eq, patchSteps, patchSteps, signatureSteps, signatureSteps, ← signed, steps, steps]
    rw [show (makePlan E files first rest).deltas.map (fun d => d.update.name) = _ from names]

/-! ## Reuse -/

/-- The deltas the run plans are those behind the newest ZIP of the chain that is on
the storage. A run that comes to its chain searches for what the first of them starts
from, and downloads and applies these. -/
def ReusesWork (E : Env) (fuel : Nat) (files : FileStore) : Prop :=
  ∀ latest ds d after, getNewestFullBuild E = .ok latest → fetched E fuel = some ds → NewestWork E files ds d after →
    keptDeltas E files latest ds = trimRevoked after ∧
    ∀ C args w plan, w.files = files → RunsChain E C args fuel w plan →
      ∃ first rest, trimRevoked after = first :: rest ∧ WorksOn E files plan first rest

/-- What a run does with the chain once the deltas behind the ZIP are kept. -/
theorem RunsChain.worksOn {fuel : Nat} {w : World} {plan : Plan} (runs : RunsChain E C args fuel w plan)
    {latest : String} {ds behind : List DeltaInfo} (newest : getNewestFullBuild E = .ok latest)
    (chain : fetched E fuel = some ds) (kept : keptDeltas E w.files latest ds = behind) :
    ∃ first rest, behind = first :: rest ∧ WorksOn E w.files plan first rest := by
  cases runs with
  | started newest' chain' kept' =>
    cases newest.symm.trans newest'
    cases chain.symm.trans chain'
    exact ⟨_, _, kept.symm.trans kept', makePlan_worksOn E w.files _ _⟩

/-- **Past work is reused** exactly where the newest ZIP on the storage is that of
the newest full build, or where all deltas that remain are revoked. -/
theorem reusesWork_iff {fuel : Nat} : ReusesWork E fuel files ↔
    ∀ latest ds d after, getNewestFullBuild E = .ok latest → fetched E fuel = some ds → NewestWork E files ds d after →
      d.out.name = latest ∨ ∀ d' ∈ remaining E files latest ds, d'.revoked = true := by
  have each : ∀ latest ds d after, NewestWork E files ds d after →
      (keptDeltas E files latest ds = trimRevoked after ↔
        d.out.name = latest ∨ ∀ d' ∈ remaining E files latest ds, d'.revoked = true) := by
    intro latest ds d after work
    rw [keptDeltas_eq]
    by_cases name : d.out.name = latest
    · refine iff_of_true ?_ (.inl name)
      obtain ⟨before, rfl⟩ := work.split
      have others : ∀ d' ∈ after, reusable E files latest d' = false := by
        intro d' behind
        rw [← Bool.not_eq_true, reusable_iff]
        exact fun reuse => work.last d' behind reuse.1
      rw [remaining, findReusable_here (reusable_iff.mpr ⟨work.here, name⟩) others]
    · obtain ⟨between, rest⟩ := work.remaining_eq name
      rw [rest, or_iff_right name, List.append_cons]
      exact trimRevoked_append_eq (by simp)
  constructor
  · exact fun reuses latest ds d after newest chain work => (each latest ds d after work).mp
      (reuses latest ds d after newest chain work).1
  · intro holds latest ds d after newest chain work
    have kept := (each latest ds d after work).mpr (holds latest ds d after newest chain work)
    refine ⟨kept, ?_⟩
    rintro C args w plan rfl runs
    exact runs.worksOn newest chain kept

/-! ### A ZIP in the middle of the chain -/

/-- The ZIP of `omni-b` is on the storage, and the chain goes on to `omni-c`. -/
def intermediateFiles : FileStore := (World.idle [("/sd/OpenDelta/omni-b.zip", [3])]).files

/-- The first delta is downloaded and applied again. -/
theorem reusesWork_intermediate : NewestWork followedServer.env intermediateFiles [editedDelta, laterDelta] editedDelta
      [laterDelta] ∧
    keptDeltas followedServer.env intermediateFiles "omni-c.zip" [editedDelta, laterDelta] = [editedDelta, laterDelta] ∧
    ¬ ReusesWork followedServer.env 3 intermediateFiles := by
  have work : NewestWork followedServer.env intermediateFiles [editedDelta, laterDelta] editedDelta [laterDelta] :=
    ⟨⟨[], rfl⟩, by decide, by decide⟩
  have kept : keptDeltas followedServer.env intermediateFiles "omni-c.zip" [editedDelta, laterDelta] =
      [editedDelta, laterDelta] := by decide
  refine ⟨work, kept, fun reuses => ?_⟩
  have same := (reuses _ _ _ _ followedServer_newest followedServer_fetched work).1
  rw [kept] at same
  exact absurd (congrArg List.length same) (by decide)

end OpenDelta.Service
