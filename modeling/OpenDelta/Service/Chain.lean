import Mathlib.Data.List.Pairwise
import OpenDelta.Service.Check

/-!
# The delta chain

What the fetch loop collects, which of it is kept, and what the plan of the
delta branch takes over from it. The URL of a turn is made from the name the
turn before led to, so no name occurs twice in a chain that ends.
-/

namespace OpenDelta.Service

variable {E : Env}

/-! ## Fetching -/

theorem fetchDeltas_succ {fuel : Nat} {fetch : String} {ds : List DeltaInfo}
    (run : fetchDeltas E (fuel + 1) fetch = some ds) :
    (fetchDelta E fetch = none ∧ ds = []) ∨
      ∃ d rest, fetchDelta E fetch = some d ∧ ds = d :: rest ∧
        fetchDeltas E fuel (deltaUrl E (JavaString.replace d.out.name ".zip" "")) = some rest := by
  rw [fetchDeltas] at run
  split at run
  · exact .inl ⟨‹_›, (Option.some.inj run).symm⟩
  · rename_i d found
    obtain ⟨rest, tail, rfl⟩ := Option.map_eq_some_iff.mp run
    exact .inr ⟨d, rest, found, rfl, tail⟩

theorem fetchDeltas_nil {fuel : Nat} {fetch : String} (ended : fetchDelta E fetch = none) :
    fetchDeltas E (fuel + 1) fetch = some [] := by
  rw [fetchDeltas, ended]

theorem fetchDeltas_cons {fuel : Nat} {fetch : String} {d : DeltaInfo} {rest : List DeltaInfo}
    (found : fetchDelta E fetch = some d)
    (tail : fetchDeltas E fuel (deltaUrl E (JavaString.replace d.out.name ".zip" "")) = some rest) :
    fetchDeltas E (fuel + 1) fetch = some (d :: rest) := by
  rw [fetchDeltas, found]
  exact congrArg (Option.map (d :: ·)) tail

theorem fetched_one {d : DeltaInfo} (found : fetchDelta E (deltaUrl E E.config.filenameBase) = some d)
    (ended : fetchDelta E (deltaUrl E (JavaString.replace d.out.name ".zip" "")) = none) :
    fetched E 2 = some [d] := fetchDeltas_cons found (fetchDeltas_nil ended)

/-- More fuel does not change a chain that ends. -/
theorem fetchDeltas_deterministic {fuel fuel' : Nat} {fetch : String} {ds ds' : List DeltaInfo}
    (run : fetchDeltas E fuel fetch = some ds) (run' : fetchDeltas E fuel' fetch = some ds') : ds = ds' := by
  induction fuel generalizing fuel' fetch ds ds' with
  | zero => cases run
  | succ fuel ih =>
    cases fuel' with
    | zero => cases run'
    | succ fuel' =>
      rcases fetchDeltas_succ run with ⟨ended, rfl⟩ | ⟨d, rest, found, rfl, tail⟩
      · rcases fetchDeltas_succ run' with ⟨-, rfl⟩ | ⟨d', _, found', -⟩
        · rfl
        · rw [ended] at found'
          cases found'
      · rcases fetchDeltas_succ run' with ⟨ended, -⟩ | ⟨d', rest', found', rfl, tail'⟩
        · rw [ended] at found
          cases found
        · obtain rfl : d = d' := Option.some.inj (found.symm.trans found')
          rw [ih tail tail']

/-- What follows a delta is the chain of the build it leads to. -/
theorem fetchDeltas_tail {fuel : Nat} {fetch : String} {ds : List DeltaInfo} {d : DeltaInfo}
    (run : fetchDeltas E fuel fetch = some ds) (member : d ∈ ds) :
    ∃ fuel' rest, fetchDeltas E fuel' (deltaUrl E (JavaString.replace d.out.name ".zip" "")) = some rest ∧
      rest.length < ds.length := by
  induction fuel generalizing fetch ds with
  | zero => cases run
  | succ fuel ih =>
    rcases fetchDeltas_succ run with ⟨-, rfl⟩ | ⟨first, rest, -, rfl, tail⟩
    · cases member
    · rcases List.mem_cons.mp member with rfl | inside
      · exact ⟨fuel, rest, tail, Nat.lt_succ_self _⟩
      · obtain ⟨fuel', rest', run', shorter⟩ := ih tail inside
        exact ⟨fuel', rest', run', Nat.lt_succ_of_lt shorter⟩

/-- The deltas of a chain lead to different builds. -/
theorem fetchDeltas_pairwise {fuel : Nat} {fetch : String} {ds : List DeltaInfo}
    (run : fetchDeltas E fuel fetch = some ds) : ds.Pairwise fun d d' => d.out.name ≠ d'.out.name := by
  induction fuel generalizing fetch ds with
  | zero => cases run
  | succ fuel ih =>
    rcases fetchDeltas_succ run with ⟨-, rfl⟩ | ⟨first, rest, -, rfl, tail⟩
    · exact .nil
    · refine .cons ?_ (ih tail)
      intro d member same
      obtain ⟨fuel', rest', run', shorter⟩ := fetchDeltas_tail tail member
      rw [← same] at run'
      rw [fetchDeltas_deterministic tail run'] at shorter
      exact Nat.lt_irrefl _ shorter

theorem fetched_pairwise {fuel : Nat} {ds : List DeltaInfo} (run : fetched E fuel = some ds) :
    ds.Pairwise fun d d' => d.out.name ≠ d'.out.name := fetchDeltas_pairwise run

/-- In a chain a name stands for one delta. -/
theorem eq_of_name {ds : List DeltaInfo} (distinct : ds.Pairwise fun d d' => d.out.name ≠ d'.out.name)
    {d d' : DeltaInfo} (member : d ∈ ds) (member' : d' ∈ ds) (same : d.out.name = d'.out.name) : d = d' := by
  have symmetric : Std.Symm fun d d' : DeltaInfo => d.out.name ≠ d'.out.name := ⟨fun _ _ => Ne.symm⟩
  by_contra ne
  exact distinct.forall member member' ne same

/-! ## Keeping -/

theorem findReusable_some {files : FileStore} {latest : String} {ds rest : List DeltaInfo} {d : DeltaInfo}
    (found : findReusable E files latest ds = some (d, rest)) :
    reusable E files latest d = true ∧ ∃ before, ds = before ++ d :: rest := by
  induction ds with
  | nil => cases found
  | cons first ds ih =>
    rw [findReusable] at found
    rcases Option.or_eq_some_iff.mp found with later | ⟨-, here⟩
    · obtain ⟨holds, before, rfl⟩ := ih later
      exact ⟨holds, first :: before, rfl⟩
    · split at here
      · cases here
        exact ⟨‹_›, [], rfl⟩
      · cases here

theorem trimRevoked_sublist (ds : List DeltaInfo) : (trimRevoked ds).Sublist ds := by
  rw [trimRevoked, ← List.reverse_sublist, List.reverse_reverse]
  exact List.dropWhile_sublist ..

/-- The last delta that stays is not revoked. -/
theorem trimRevoked_last {ds : List DeltaInfo} {d : DeltaInfo} (last : (trimRevoked ds).getLast? = some d) :
    d.revoked = false := by
  rw [trimRevoked, List.getLast?_reverse] at last
  have stopped := List.head?_dropWhile_not (fun d : DeltaInfo => d.revoked) ds.reverse
  rw [last] at stopped
  simpa using stopped

theorem keptDeltas_sublist (files : FileStore) (latest : String) (ds : List DeltaInfo) :
    (keptDeltas E files latest ds).Sublist ds := by
  rw [keptDeltas]
  split
  · rename_i d rest found
    obtain ⟨-, before, rfl⟩ := findReusable_some found
    exact (trimRevoked_sublist rest).trans ((List.sublist_cons_self ..).trans (List.sublist_append_right ..))
  · exact trimRevoked_sublist ds

theorem keptDeltas_last {files : FileStore} {latest : String} {ds : List DeltaInfo} {d : DeltaInfo}
    (last : (keptDeltas E files latest ds).getLast? = some d) : d.revoked = false := by
  rw [keptDeltas] at last
  split at last
  · exact trimRevoked_last last
  · exact trimRevoked_last last

/-! ## The plan -/

/-- A delta but for what the service notes down about its files. -/
def DeltaInfo.untagged (d : DeltaInfo) : DeltaInfo :=
  { d with update := { d.update with tag := none }, signature := { d.signature with tag := none } }

theorem tagUpdate_untagged (files : FileStore) (f : FileUpdate) :
    { tagUpdate E files f with tag := none } = { f with tag := none } := by
  unfold tagUpdate
  split <;> rfl

theorem tagDeltas_untagged (files : FileStore) (ds : List DeltaInfo) :
    (tagDeltas E files ds).map DeltaInfo.untagged = ds.map DeltaInfo.untagged := by
  induction ds with
  | nil => rfl
  | cons d ds ih =>
    cases ds with
    | nil =>
      simp only [tagDeltas, List.map_cons, List.map_nil, DeltaInfo.untagged, tagUpdate_untagged]
      split
      · rw [tagUpdate_untagged]
      · rfl
    | cons d' ds =>
      simp only [tagDeltas, List.map_cons, DeltaInfo.untagged, tagUpdate_untagged] at ih ⊢
      rw [ih]

/-- Where a tagged delta comes from. -/
theorem mem_tagDeltas {files : FileStore} {ds : List DeltaInfo} {d : DeltaInfo}
    (member : d ∈ tagDeltas E files ds) : ∃ d₀ ∈ ds, d.untagged = d₀.untagged := by
  have image : d.untagged ∈ ds.map DeltaInfo.untagged := by
    rw [← tagDeltas_untagged (E := E) files ds]
    exact List.mem_map_of_mem member
  obtain ⟨d₀, inside, same⟩ := List.mem_map.mp image
  exact ⟨d₀, inside, same.symm⟩

theorem mem_dropLast_tagDeltas {files : FileStore} {ds : List DeltaInfo} {d : DeltaInfo}
    (member : d ∈ (tagDeltas E files ds).dropLast) : ∃ d₀ ∈ ds.dropLast, d.untagged = d₀.untagged := by
  have image : d.untagged ∈ ds.dropLast.map DeltaInfo.untagged := by
    rw [List.map_dropLast, ← tagDeltas_untagged (E := E) files ds, ← List.map_dropLast]
    exact List.mem_map_of_mem member
  obtain ⟨d₀, inside, same⟩ := List.mem_map.mp image
  exact ⟨d₀, inside, same.symm⟩

theorem DeltaInfo.out_of_untagged {d d' : DeltaInfo} (same : d.untagged = d'.untagged) : d.out = d'.out :=
  congrArg (fun d => d.out) same

theorem DeltaInfo.updateName_of_untagged {d d' : DeltaInfo} (same : d.untagged = d'.untagged) :
    d.update.name = d'.update.name := congrArg (fun d => d.update.name) same

theorem DeltaInfo.signatureName_of_untagged {d d' : DeltaInfo} (same : d.untagged = d'.untagged) :
    d.signature.name = d'.signature.name := congrArg (fun d => d.signature.name) same

variable (E) in
/-- The plan works towards the last delta that is kept. -/
theorem makePlan_last (files : FileStore) (first : DeltaInfo) (rest : List DeltaInfo) :
    ∃ last, (first :: rest).getLast? = some last ∧
      (makePlan E files first rest).deltas.getLast? = some (makePlan E files first rest).last ∧
      (makePlan E files first rest).last.untagged = last.untagged := by
  have same := congrArg List.getLast? (tagDeltas_untagged (E := E) files (first :: rest))
  rw [List.getLast?_map, List.getLast?_map] at same
  obtain ⟨last, isLast⟩ : ∃ last, (first :: rest).getLast? = some last :=
    ⟨_, List.getLast?_eq_some_getLast (List.cons_ne_nil first rest)⟩
  rw [isLast] at same
  obtain ⟨tagged, isTagged, eq⟩ := Option.map_eq_some_iff.mp same
  refine ⟨last, isLast, ?_, ?_⟩
  · simp only [makePlan, isTagged, Option.getD_some]
  · simp only [makePlan, isTagged, Option.getD_some]
    exact eq

variable (E) in
theorem makePlan_nonempty (files : FileStore) (first : DeltaInfo) (rest : List DeltaInfo) :
    (makePlan E files first rest).deltas ≠ [] := by
  obtain ⟨last, -, isLast, -⟩ := makePlan_last E files first rest
  intro empty
  rw [empty] at isLast
  cases isLast

variable {latest : String} {plan : Plan}

/-- A delta update needs an initial file, small deltas, and a newer build that is
the one the deltas lead to. -/
theorem Plan.deltaUpdatePossible_iff : plan.deltaUpdatePossible E latest = true ↔
    plan.needsFull = false ∧ isNewer E latest = true ∧ JavaString.getName plan.flashFilename = latest := by
  unfold deltaUpdatePossible
  rw [Bool.and_eq_true, Bool.and_eq_true, Bool.not_eq_true', beq_iff_eq, and_assoc]
  refine and_congr_right fun _ => ⟨fun ⟨newer, name⟩ => ?_, fun ⟨newer, name⟩ => ?_⟩
  · exact ⟨name ▸ newer, name⟩
  · exact ⟨name.symm ▸ newer, name⟩

theorem Plan.updateAvailable_eq : plan.updateAvailable E latest = isNewer E latest := by
  unfold updateAvailable
  cases possible : plan.deltaUpdatePossible E latest with
  | false => exact Bool.or_false _
  | true => rw [(deltaUpdatePossible_iff.mp possible).2.1, Bool.or_true]

theorem Plan.wantsFull_iff : plan.wantsFull E latest = true ↔
    plan.needsFull = true ∨ isNewer E latest = true ∧ JavaString.getName plan.flashFilename ≠ latest := by
  have possible : plan.deltaUpdatePossible E latest = true ↔ _ := deltaUpdatePossible_iff
  unfold wantsFull
  rw [Bool.or_eq_true, Bool.and_eq_true, Bool.not_eq_true', ← Bool.not_eq_true, possible]
  cases plan.needsFull with
  | true => simp
  | false => simp only [true_and, Bool.false_eq_true, false_or, not_and]; exact ⟨fun h => ⟨h.2, h.1 h.2⟩, fun h => ⟨fun _ => h.2, h.1⟩⟩

end OpenDelta.Service
