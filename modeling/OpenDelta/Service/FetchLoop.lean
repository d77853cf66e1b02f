import OpenDelta.Data.Walk
import OpenDelta.Service.ForcedFull

/-!
# The end of the fetch loop

The loop follows the names in the published deltas and remembers none of them.
It is a walk over URLs, so with finitely many deltas on the server it ends unless
a name comes back.
-/

namespace OpenDelta.Service

variable {E : Env}

/-- Where a turn of the loop leads. -/
def nextFetch (E : Env) (fetch : String) : Option String :=
  (fetchDelta E fetch).map fun d => deltaUrl E (JavaString.replace d.out.name ".zip" "")

/-- The fetch loop ends. -/
def FetchEnds (E : Env) : Prop := ∃ fuel ds, fetched E fuel = some ds

/-- A file of the server that can be read as a delta, revoked or not. -/
def IsDelta (E : Env) (url : String) : Prop := readDelta E url false ≠ none ∨ readDelta E url true ≠ none

/-- The loop collects deltas as long as the walk goes on. -/
theorem fetchDeltas_isSome_iff (n : Nat) (fetch : String) :
    (∃ ds, fetchDeltas E n fetch = some ds) ↔ walk (nextFetch E) n fetch = none := by
  induction n generalizing fetch with
  | zero => exact iff_of_false (by rintro ⟨_, ⟨⟩⟩) (by rintro ⟨⟩)
  | succ n ih =>
    rw [walk, nextFetch]
    cases found : fetchDelta E fetch with
    | none => exact iff_of_true ⟨[], fetchDeltas_nil found⟩ rfl
    | some d =>
      refine Iff.trans ⟨?_, ?_⟩ (ih _)
      · rintro ⟨ds, run⟩
        rcases fetchDeltas_succ run with ⟨ended, -⟩ | ⟨d', rest, found', -, tail⟩
        · cases found.symm.trans ended
        · cases found.symm.trans found'
          exact ⟨rest, tail⟩
      · rintro ⟨rest, tail⟩
        exact ⟨d :: rest, fetchDeltas_cons found tail⟩

theorem fetchEnds_iff : FetchEnds E ↔ WalkEnds (nextFetch E) (deltaUrl E E.config.filenameBase) :=
  exists_congr fun n => fetchDeltas_isSome_iff n _

/-- What the loop comes to next stands in one of the files. -/
theorem nextFetch_published {fetch url : String} (next : nextFetch E fetch = some url) :
    ∃ file revoked d, readDelta E file revoked = some d ∧ url = deltaUrl E (JavaString.replace d.out.name ".zip" "") := by
  obtain ⟨d, found, rfl⟩ := Option.map_eq_some_iff.mp next
  rcases Option.or_eq_some_iff.mp found with plain | ⟨-, revoked⟩
  · exact ⟨_, _, d, plain, rfl⟩
  · exact ⟨_, _, d, revoked, rfl⟩

/-- Finitely many files name finitely many URLs. -/
theorem nextFetch_finite (published : {url | IsDelta E url}.Finite) : {url | ∃ fetch, nextFetch E fetch = some url}.Finite := by
  let target (revoked : Bool) (file : String) : String :=
    ((readDelta E file revoked).map fun d => deltaUrl E (JavaString.replace d.out.name ".zip" "")).getD ""
  refine ((published.image (target false)).union (published.image (target true))).subset ?_
  rintro url ⟨fetch, next⟩
  obtain ⟨file, revoked, d, read, rfl⟩ := nextFetch_published next
  have listed : IsDelta E file := by
    cases revoked with
    | false => exact .inl (by rw [read]; exact Option.some_ne_none d)
    | true => exact .inr (by rw [read]; exact Option.some_ne_none d)
  cases revoked with
  | false => exact .inl ⟨file, listed, by simp only [target, read, Option.map_some, Option.getD_some]⟩
  | true => exact .inr ⟨file, listed, by simp only [target, read, Option.map_some, Option.getD_some]⟩

/-- **The fetch loop ends** exactly if the chain from the current version comes to
no name whose chain leads back to it. -/
theorem fetchLoop_ends_iff (E : Env) (published : {url | IsDelta E url}.Finite) :
    FetchEnds E ↔ ∀ url, WalksTo (nextFetch E) (deltaUrl E E.config.filenameBase) url → ¬ Returns (nextFetch E) url :=
  fetchEnds_iff.trans (walkEnds_iff (nextFetch_finite published))

/-- A check comes to its end when the newest build cannot be found out, or the loop ends. -/
theorem checkForUpdatesAsync_ends_iff {C : Conditions} {args : Args} {w : World} :
    (∃ fuel ending, checkForUpdatesAsync E C args fuel w = some ending) ↔
      (∃ state, getNewestFullBuild E = .error state) ∨ FetchEnds E := by
  unfold checkForUpdatesAsync run runBody
  cases newest : getNewestFullBuild E with
  | error state => exact iff_of_true ⟨0, _, rfl⟩ (.inl ⟨state, rfl⟩)
  | ok latest =>
    rw [or_iff_right (by rintro ⟨_, ⟨⟩⟩)]
    refine exists_congr fun fuel => ?_
    simp only [Option.map_eq_some_iff]
    constructor
    · rintro ⟨_, _, ⟨ds, run, -⟩, -⟩
      exact ⟨ds, run⟩
    · rintro ⟨ds, run⟩
      exact ⟨_, _, ⟨ds, run, rfl⟩, rfl⟩

/-! ## Servers -/

/-- A server publishes finitely many files. -/
theorem Published.finite (P : Published) : {url | IsDelta P.env url}.Finite := by
  refine (List.finite_toSet (P.pages.map (·.1))).subset fun url listed => ?_
  by_contra unlisted
  have absent : P.pages.lookup url = none := by
    rw [List.lookup_eq_none_iff]
    intro page member
    rw [bne_iff_ne]
    rintro rfl
    exact unlisted (List.mem_map_of_mem member)
  rcases listed with plain | revoked
  · exact plain (readDelta_none absent false)
  · exact revoked (readDelta_none absent true)

/-- No name comes back on a server with one delta. -/
theorem fetchLoop_current : FetchEnds currentServer.env ∧ ∀ url,
    WalksTo (nextFetch currentServer.env) (deltaUrl currentServer.env currentServer.env.config.filenameBase) url →
      ¬ Returns (nextFetch currentServer.env) url :=
  ⟨⟨2, _, currentServer_fetched⟩,
    (fetchLoop_ends_iff currentServer.env currentServer.finite).mp ⟨2, _, currentServer_fetched⟩⟩

/-- The way back from `omni-b` to `omni-a`. -/
def backDelta : DeltaInfo := { laterDelta with out := sampleDelta.input }

/-- A release line that returns to its first build. -/
def cycleServer : Published :=
  sampleServer [("d/omni-a.delta", sampleDelta), ("d/omni-b.delta", backDelta)] ["omni-b.zip"] []

set_option maxRecDepth 4000

/-- The loop goes round. -/
theorem fetchLoop_cycle : ¬ FetchEnds cycleServer.env := by
  have first : Published.Lists cycleServer "d/omni-a.delta" sampleDelta.document :=
    ⟨rfl, by decide, by decide, by decide⟩
  have second : Published.Lists cycleServer "d/omni-b.delta" backDelta.document :=
    ⟨by decide, by decide, by decide, by decide⟩
  have there : nextFetch cycleServer.env "d/omni-a.delta" = some "d/omni-b.delta" := by
    rw [nextFetch, Published.fetchDelta_eq first ⟨rfl, rfl, rfl, rfl⟩]
    decide
  have back : nextFetch cycleServer.env "d/omni-b.delta" = some "d/omni-a.delta" := by
    rw [nextFetch, Published.fetchDelta_eq second ⟨rfl, rfl, rfl, rfl⟩]
    decide
  have start : deltaUrl cycleServer.env cycleServer.env.config.filenameBase = "d/omni-a.delta" := by decide
  rw [fetchEnds_iff, start]
  refine not_walkEnds ⟨0, rfl⟩ ⟨1, ?_⟩
  rw [walk, there, Option.bind_some, walk, back]
  rfl

end OpenDelta.Service
