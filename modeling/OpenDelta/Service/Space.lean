import Mathlib.Algebra.Ring.Int.Defs
import Mathlib.Data.List.Forall2
import OpenDelta.Service.Relay

/-!
# The space a build takes

What a build holds on the storage, moment by moment, is a matter of the order in
which it writes its files. `getRequiredSpace` asks for twice the largest ZIP that
a delta makes; the ZIP that `zipadjust` makes, and the signed one, do not enter,
and the last step leaves both temporary files beside its result.
-/

namespace OpenDelta.Service

variable {E : Env}

/-! ## Moments -/

/-- The files a build writes besides its downloads. -/
inductive BuildFile where
  | temp1 | temp2 | result
  deriving DecidableEq

/-- The bytes on the storage that a build has put there. -/
structure Held where
  downloads : Int
  temp1 : Int
  temp2 : Int
  result : Int
  deriving DecidableEq

namespace Held

def total (h : Held) : Int := h.downloads + h.temp1 + h.temp2 + h.result

def put (h : Held) : BuildFile → Int → Held
  | .temp1, size => { h with temp1 := size }
  | .temp2, size => { h with temp2 := size }
  | .result, size => { h with result := size }

end Held

/-- A file that a build gets or makes, with its final size. -/
inductive Work where
  | download (size : Int)
  | write (file : BuildFile) (size : Int)

def Work.size : Work → Int
  | download size => size
  | write _ size => size

/-- What is held when `part` of a file is there. A file that is written again is deleted first. -/
def Held.during (h : Held) : Work → Int → Held
  | .download _, part => { h with downloads := h.downloads + part }
  | .write file _, part => h.put file part

/-- What is held at some moment of some work. -/
inductive Moment : Held → List Work → Held → Prop where
  | during {h : Held} {work : Work} {rest : List Work} (part : Int) (least : 0 ≤ part) (most : part ≤ work.size) :
      Moment h (work :: rest) (h.during work part)
  | after {h m : Held} {work : Work} {rest : List Work} :
      Moment (h.during work work.size) rest m → Moment h (work :: rest) m

/-- At no moment more than `space` bytes are held. -/
def StaysWithin (space : Int) (h : Held) (works : List Work) : Prop := ∀ m, Moment h works m → m.total ≤ space

theorem Held.total_during_le (h : Held) {work : Work} {part : Int} (most : part ≤ work.size) :
    (h.during work part).total ≤ (h.during work work.size).total := by
  cases work with
  | download size =>
    simp only [Held.during, Held.total, Work.size] at most ⊢
    omega
  | write file size =>
    simp only [Work.size] at most
    cases file <;> simp only [Held.during, Held.put, Held.total, Work.size] <;> omega

/-- Only the end of each piece of work counts. -/
theorem staysWithin_cons {space : Int} {h : Held} (work : Work) {rest : List Work} (nonneg : 0 ≤ work.size) :
    StaysWithin space h (work :: rest) ↔
      (h.during work work.size).total ≤ space ∧ StaysWithin space (h.during work work.size) rest := by
  constructor
  · exact fun stays => ⟨stays _ (.during _ nonneg (Int.le_refl _)), fun m moment => stays m (.after moment)⟩
  · rintro ⟨ending, later⟩ m moment
    cases moment with
    | during part least most => exact Int.le_trans (h.total_during_le most) ending
    | after moment => exact later m moment

theorem staysWithin_nil (space : Int) (h : Held) : StaysWithin space h [] := by
  intro m moment
  cases moment

/-! ## The work of a build -/

/-- `tempFiles`, by index. -/
def BuildFile.temp (k : Nat) : BuildFile := if k = 0 then .temp1 else .temp2

def BuildFile.path (E : Env) (last : DeltaInfo) : BuildFile → String
  | temp1 => tempFiles E 0
  | temp2 => tempFiles E 1
  | result => patchTarget E last

/-- What the native calls of a relay write, for the sizes of their outputs. -/
def outputs : Nat → List Int → List Work
  | _, [] => []
  | _, [size] => [.write .result size]
  | k, size :: size' :: sizes => .write (.temp k) size :: outputs ((k + 1) % 2) (size' :: sizes)

/-- The sizes that the metadata give for the ZIPs of a build, in the order of `patchSteps`. -/
def patchSizes (E : Env) (deltas : List DeltaInfo) (first last : DeltaInfo) (needsProcessing : Bool) : List Int :=
  (if needsProcessing then [first.input.store.size.toInt] else []) ++
    (deltas.map (·.update.applied.size.toInt) ++
      if E.config.applySignature then [last.signature.applied.size.toInt] else [])

/-- The sizes of the delta files that `downloadFiles` gets. -/
def downloadSizes (E : Env) (deltas : List DeltaInfo) (last : DeltaInfo) : List Int :=
  (deltas.filter (·.update.tag.isNone)).map (·.update.update.size.toInt) ++
    if E.config.applySignature && last.signature.tag.isNone then [last.signature.update.size.toInt] else []

/-- `downloadFiles` and then `applyPatches`. -/
def buildWork (E : Env) (deltas : List DeltaInfo) (first last : DeltaInfo) (needsProcessing : Bool) : List Work :=
  (downloadSizes E deltas last).map .download ++ outputs 0 (patchSizes E deltas first last needsProcessing)

def Held.nothing : Held := ⟨0, 0, 0, 0⟩

/-! ## The peak -/

/-- The most that the outputs of a relay take at once: `newer` is the size of the
last output, `older` that of the one before it. -/
def peak (newer older : Int) : List Int → Int
  | [] => newer + older
  | [size] => older + newer + size
  | size :: size' :: sizes => max (newer + size) (peak size newer (size' :: sizes))

/-- Two temporary files of which the one with index `k` is the older one. -/
def Held.turn (downloads : Int) (k : Nat) (newer older : Int) : Held :=
  if k = 0 then ⟨downloads, older, newer, 0⟩ else ⟨downloads, newer, older, 0⟩

theorem Held.put_turn {k : Nat} (index : k < 2) (downloads newer older size : Int) :
    (Held.turn downloads k newer older).put (.temp k) size = Held.turn downloads ((k + 1) % 2) size newer := by
  obtain rfl | rfl : k = 0 ∨ k = 1 := by omega
  · rfl
  · rfl

theorem Held.total_turn (downloads : Int) (k : Nat) (newer older : Int) :
    (Held.turn downloads k newer older).total = downloads + newer + older := by
  rw [Held.turn]
  split
  · simp only [Held.total, Int.add_zero]
    omega
  · simp only [Held.total, Int.add_zero]

theorem Held.total_put_result (downloads : Int) (k : Nat) (newer older size : Int) :
    ((Held.turn downloads k newer older).put .result size).total = downloads + newer + older + size := by
  rw [Held.turn]
  split
  · simp only [Held.put, Held.total]
    omega
  · simp only [Held.put, Held.total]

/-- The outputs of a relay stay within what their peak allows. -/
theorem staysWithin_outputs {space downloads : Int} {sizes : List Int} (nonempty : sizes ≠ [])
    (nonneg : ∀ size ∈ sizes, 0 ≤ size) {k : Nat} (index : k < 2) (newer older : Int) :
    StaysWithin space (Held.turn downloads k newer older) (outputs k sizes) ↔
      downloads + peak newer older sizes ≤ space := by
  induction sizes generalizing k newer older with
  | nil => exact absurd rfl nonempty
  | cons size sizes ih =>
    have here := nonneg size (List.mem_cons_self ..)
    cases sizes with
    | nil =>
      rw [outputs, staysWithin_cons (.write .result size) here, and_iff_left (staysWithin_nil _ _), Held.during, Work.size,
        Held.total_put_result, peak]
      omega
    | cons size' sizes =>
      have rest := ih (List.cons_ne_nil _ _) (fun s member => nonneg s (List.mem_cons_of_mem _ member))
        (k := (k + 1) % 2) (Nat.mod_lt _ (by decide)) size newer
      rw [outputs, staysWithin_cons (.write (.temp k) size) here, Held.during, Work.size, Held.put_turn index, Held.total_turn, rest, peak]
      omega

theorem newer_le_peak {sizes : List Int} (nonneg : ∀ size ∈ sizes, 0 ≤ size) {newer older : Int} (least : 0 ≤ older) :
    newer ≤ peak newer older sizes := by
  cases sizes with
  | nil =>
    rw [peak]
    omega
  | cons size sizes =>
    have here := nonneg size (List.mem_cons_self ..)
    cases sizes <;> rw [peak] <;> omega

/-- Every output is held at some moment. -/
theorem size_le_peak {sizes : List Int} (nonneg : ∀ size ∈ sizes, 0 ≤ size) {newer older : Int} (leastNewer : 0 ≤ newer)
    (leastOlder : 0 ≤ older) : ∀ size ∈ sizes, size ≤ peak newer older sizes := by
  induction sizes generalizing newer older with
  | nil => simp
  | cons size sizes ih =>
    have here := nonneg size (List.mem_cons_self ..)
    cases sizes with
    | nil =>
      rw [List.forall_mem_singleton, peak]
      omega
    | cons size' sizes =>
      have rest := ih (fun s member => nonneg s (List.mem_cons_of_mem _ member)) here leastNewer
      intro s member
      rw [peak]
      rcases List.mem_cons.mp member with rfl | member
      · omega
      · have := rest s member
        omega

theorem sum_nonneg {sizes : List Int} (nonneg : ∀ size ∈ sizes, 0 ≤ size) : 0 ≤ sizes.sum := by
  induction sizes with
  | nil => exact Int.le_refl 0
  | cons size sizes ih =>
    rw [List.sum_cons]
    exact Int.add_nonneg (nonneg size (List.mem_cons_self ..))
      (ih fun s member => nonneg s (List.mem_cons_of_mem _ member))

/-- Downloads add up, and are all there before the first output. -/
theorem staysWithin_downloads {space downloads : Int} {fetched sizes : List Int} (nonempty : sizes ≠ [])
    (nonnegFetched : ∀ size ∈ fetched, 0 ≤ size) (nonneg : ∀ size ∈ sizes, 0 ≤ size) :
    StaysWithin space (Held.turn downloads 0 0 0) (fetched.map .download ++ outputs 0 sizes) ↔
      downloads + fetched.sum + peak 0 0 sizes ≤ space := by
  induction fetched generalizing downloads with
  | nil =>
    rw [List.map_nil, List.nil_append, staysWithin_outputs nonempty nonneg (by decide), List.sum_nil, Int.add_zero]
  | cons size fetched ih =>
    have here := nonnegFetched size (List.mem_cons_self ..)
    have later := fun s member => nonnegFetched s (List.mem_cons_of_mem size member)
    have added : (Held.turn downloads 0 0 0).during (.download size) size = Held.turn (downloads + size) 0 0 0 := rfl
    rw [List.map_cons, List.cons_append, staysWithin_cons (.download size) here, Work.size, added,
      ih later, Held.total_turn, List.sum_cons]
    have rest := sum_nonneg later
    have written : 0 ≤ peak 0 0 sizes := newer_le_peak nonneg (Int.le_refl 0)
    omega

/-! ## What the peak is -/

def lastThree (sizes : List Int) : Int := (sizes.reverse.take 3).sum

theorem lastThree_cons (size : Int) {sizes : List Int} (enough : 3 ≤ sizes.length) :
    lastThree (size :: sizes) = lastThree sizes := by
  rw [lastThree, List.reverse_cons, List.take_append_of_le_length (by rw [List.length_reverse]; exact enough), lastThree]

theorem lastThree_zeros (sizes : List Int) : lastThree (0 :: 0 :: sizes) = lastThree sizes := by
  have zeros : ∀ n, (([0, 0] : List Int).take n).sum = 0 := by
    intro n
    obtain rfl | rfl | enough : n = 0 ∨ n = 1 ∨ 2 ≤ n := by omega
    · rfl
    · rfl
    · rw [List.take_of_length_le enough]
      rfl
  have ending : (0 :: 0 :: sizes).reverse = sizes.reverse ++ [0, 0] := by simp
  rw [lastThree, ending, List.take_append, List.sum_append, zeros, Int.add_zero, lastThree]

/-- Where no output but the last one is larger than half of the space, the end decides. -/
theorem peak_le_iff {most space : Int} (half : 2 * most ≤ space) {sizes : List Int} (nonempty : sizes ≠ [])
    (small : ∀ size ∈ sizes.dropLast, size ≤ most) {newer : Int} (smallNewer : newer ≤ most) (older : Int) :
    peak newer older sizes ≤ space ↔ lastThree (older :: newer :: sizes) ≤ space := by
  induction sizes generalizing newer older with
  | nil => exact absurd rfl nonempty
  | cons size sizes ih =>
    cases sizes with
    | nil =>
      have three : lastThree [older, newer, size] = size + (newer + (older + 0)) := rfl
      rw [peak, three]
      omega
    | cons size' sizes =>
      rw [List.dropLast_cons_cons] at small
      have here := small size (List.mem_cons_self ..)
      rw [peak, lastThree_cons older (by simp), ← ih (List.cons_ne_nil _ _)
        (fun s member => small s (List.mem_cons_of_mem _ member)) here newer]
      omega

theorem peak_adjusted_iff {most space : Int} (half : 2 * most ≤ space) (adjusted : Int) {size : Int} {sizes : List Int}
    (nonneg : 0 ≤ size) (small : ∀ s ∈ (size :: sizes).dropLast, s ≤ most) :
    peak 0 0 (adjusted :: size :: sizes) ≤ space ↔
      adjusted + size ≤ space ∧ lastThree (adjusted :: size :: sizes) ≤ space := by
  cases sizes with
  | nil =>
    have two : lastThree [adjusted, size] = size + (adjusted + 0) := rfl
    rw [two, peak, peak]
    omega
  | cons size' sizes =>
    rw [List.dropLast_cons_cons] at small
    have here := small size (List.mem_cons_self ..)
    rw [← peak_le_iff half (List.cons_ne_nil _ _) (fun s member => small s (List.mem_cons_of_mem _ member)) here,
      peak, peak]
    omega

/-! ## The formula in whole numbers -/

/-- `sizeOnDisk` without a limit. -/
def blocks (size : Int) : Int := (size + 262143) / 262144 * 262144

theorem le_blocks (size : Int) : size ≤ blocks size := by
  rw [blocks]
  omega

theorem blocks_lt (size : Int) : blocks size < size + 262144 := by
  rw [blocks]
  omega

theorem blocks_dvd (size : Int) : (262144 : Int) ∣ blocks size := Int.dvd_mul_left ..

theorem blocks_of_dvd {size : Int} (whole : (262144 : Int) ∣ size) : blocks size = size := by
  rw [blocks]
  omega

theorem bmod_in_range {n : Int} (least : -2 ^ 63 ≤ n) (most : n < 2 ^ 63) : n.bmod (2 ^ 64) = n :=
  Int.bmod_eq_of_le (by simpa using least) (by simpa using most)

/-- A `long` that an exact number wraps around to. -/
def Wraps (a : Int64) (n : Int) : Prop := ∃ q : Int, a.toInt = n + 2 ^ 64 * q

namespace Wraps

variable {a b : Int64} {m n : Int}

theorem of_eq (exact : a.toInt = n) : Wraps a n := ⟨0, by omega⟩

theorem add (left : Wraps a m) (right : Wraps b n) : Wraps (a + b) (m + n) := by
  obtain ⟨q, left⟩ := left
  obtain ⟨r, right⟩ := right
  have wrapped := Int.bmod_eq_self_sub_mul_bdiv (a.toInt + b.toInt) (2 ^ 64)
  refine ⟨q + r - Int.bdiv (a.toInt + b.toInt) (2 ^ 64), ?_⟩
  rw [Int64.toInt_add, wrapped, left, right]
  omega

theorem two_mul (right : Wraps b n) : Wraps (2 * b) (2 * n) := by
  obtain ⟨r, right⟩ := right
  have two : (2 : Int64).toInt = 2 := by decide
  have wrapped := Int.bmod_eq_self_sub_mul_bdiv (2 * b.toInt) (2 ^ 64)
  refine ⟨2 * r - Int.bdiv (2 * b.toInt) (2 ^ 64), ?_⟩
  rw [Int64.toInt_mul, two, wrapped, right]
  omega

end Wraps

theorem toInt_max (a b : Int64) : (max a b).toInt = max a.toInt b.toInt := by
  have cases : max a b = if a ≤ b then b else a := rfl
  rw [cases]
  split
  · have := Int64.le_iff_toInt_le.mp ‹_›
    omega
  · have := mt Int64.le_iff_toInt_le.mpr ‹_›
    omega

/-- The code's block arithmetic is exact up to the last block of a `long`. -/
theorem sizeOnDisk_toInt {size : Int64} (least : 0 ≤ size.toInt) (most : size.toInt ≤ 2 ^ 63 - 262144) :
    (sizeOnDisk size).toInt = blocks size.toInt := by
  have unit : (262144 : Int64).toInt = 262144 := by decide
  have rest : (262143 : Int64).toInt = 262143 := by decide
  have added : (size + 262143).toInt = size.toInt + 262143 := by
    rw [Int64.toInt_add, rest, bmod_in_range (by omega) (by omega)]
  have divided : ((size + 262143) / 262144).toInt = (size.toInt + 262143) / 262144 := by
    rw [Int64.toInt_div, added, unit, Int.tdiv_eq_ediv_of_nonneg (by omega), bmod_in_range (by omega) (by omega)]
  rw [sizeOnDisk, Int64.toInt_mul, divided, unit, bmod_in_range (by omega) (by omega), blocks]

theorem sizeOnDisk_dvd (size : Int64) : (262144 : Int) ∣ (sizeOnDisk size).toInt := by
  have unit : (262144 : Int64).toInt = 262144 := by decide
  rw [sizeOnDisk, Int64.toInt_mul, unit, Int.bmod_eq_self_sub_mul_bdiv]
  omega

theorem dvd_add {a b : Int64} (left : (262144 : Int) ∣ a.toInt) (right : (262144 : Int) ∣ b.toInt) :
    (262144 : Int) ∣ (a + b).toInt := by
  obtain ⟨q, wrapped⟩ := (Wraps.of_eq (a := a) rfl).add (Wraps.of_eq (a := b) rfl)
  rw [wrapped]
  omega

/-- A signature delta file, where one is applied. -/
def signatureSize (E : Env) (last : DeltaInfo) : Int :=
  if E.config.applySignature then last.signature.update.size.toInt else 0

def signatureBlocks (E : Env) (last : DeltaInfo) : Int :=
  if E.config.applySignature then blocks last.signature.update.size.toInt else 0

/-- The largest ZIP that a delta makes, in whole blocks. -/
def largest : List DeltaInfo → Int
  | [] => 0
  | d :: ds => max (blocks d.update.applied.size.toInt) (largest ds)

theorem largest_dvd (ds : List DeltaInfo) : (262144 : Int) ∣ largest ds := by
  induction ds with
  | nil => exact Int.dvd_zero _
  | cons d ds ih =>
    have here := blocks_dvd d.update.applied.size.toInt
    rw [largest]
    omega

theorem le_largest {ds : List DeltaInfo} {d : DeltaInfo} (member : d ∈ ds) :
    d.update.applied.size.toInt ≤ largest ds := by
  induction ds with
  | nil => cases member
  | cons d' ds ih =>
    rw [largest]
    rcases List.mem_cons.mp member with rfl | member
    · have := le_blocks d.update.applied.size.toInt
      omega
    · have := ih member
      omega

theorem largest_nonneg (ds : List DeltaInfo) : 0 ≤ largest ds := by
  induction ds with
  | nil => exact Int.le_refl 0
  | cons d ds ih =>
    rw [largest]
    omega

/-! ### `getRequiredSpace` wraps around -/

/-- The loops of `getRequiredSpace`. -/
def downloadsOnDisk (ds : List DeltaInfo) (space : Int64) : Int64 :=
  ds.foldl (fun space d => if d.update.tag.isNone then space + sizeOnDisk d.update.update.size else space) space

def biggestOnDisk (ds : List DeltaInfo) (biggest : Int64) : Int64 :=
  ds.foldl (fun biggest d => max biggest (sizeOnDisk d.update.applied.size)) biggest

theorem getRequiredSpace_eq (E : Env) (ds : List DeltaInfo) (last : DeltaInfo) : getRequiredSpace E ds last false =
    (if E.config.applySignature then downloadsOnDisk ds 0 + sizeOnDisk last.signature.update.size
      else downloadsOnDisk ds 0) + 2 * sizeOnDisk (biggestOnDisk ds 0) := rfl

theorem downloadsOnDisk_dvd (ds : List DeltaInfo) {space : Int64} (whole : (262144 : Int) ∣ space.toInt) :
    (262144 : Int) ∣ (downloadsOnDisk ds space).toInt := by
  induction ds generalizing space with
  | nil => exact whole
  | cons d ds ih =>
    rw [downloadsOnDisk, List.foldl_cons]
    refine ih ?_
    split
    · exact dvd_add whole (sizeOnDisk_dvd _)
    · exact whole

theorem getRequiredSpace_dvd (ds : List DeltaInfo) (last : DeltaInfo) :
    (262144 : Int) ∣ (getRequiredSpace E ds last false).toInt := by
  have downloads : (262144 : Int) ∣ (downloadsOnDisk ds 0).toInt := downloadsOnDisk_dvd ds (Int.dvd_zero _)
  have two : (2 : Int64).toInt = 2 := by decide
  rw [getRequiredSpace_eq]
  refine dvd_add ?_ ?_
  · split
    · exact dvd_add downloads (sizeOnDisk_dvd _)
    · exact downloads
  · obtain ⟨q, wrapped⟩ := (Wraps.of_eq (a := sizeOnDisk (biggestOnDisk ds 0)) rfl).two_mul
    have whole := sizeOnDisk_dvd (biggestOnDisk ds 0)
    rw [wrapped]
    omega

/-- The update files that are not there. -/
def missingSizes (ds : List DeltaInfo) : List Int64 := (ds.filter (·.update.tag.isNone)).map (·.update.update.size)

/-- What files take, as the code rounds it. -/
def spaceOnDisk : List Int64 → Int
  | [] => 0
  | size :: sizes => (sizeOnDisk size).toInt + spaceOnDisk sizes

def missingSpace (ds : List DeltaInfo) : Int := spaceOnDisk (missingSizes ds)

theorem spaceOnDisk_toInt {sizes : List Int64}
    (rounds : ∀ size ∈ sizes, 0 ≤ size.toInt ∧ size.toInt ≤ 2 ^ 63 - 262144) :
    spaceOnDisk sizes = (sizes.map fun size => blocks size.toInt).sum := by
  induction sizes with
  | nil => rfl
  | cons size sizes ih =>
    have here := rounds size (List.mem_cons_self ..)
    rw [spaceOnDisk, sizeOnDisk_toInt here.1 here.2, ih fun s member => rounds s (List.mem_cons_of_mem _ member),
      List.map_cons, List.sum_cons]

theorem downloadsOnDisk_wraps (ds : List DeltaInfo) {space : Int64} {n : Int} (wraps : Wraps space n) :
    Wraps (downloadsOnDisk ds space) (n + missingSpace ds) := by
  induction ds generalizing space n with
  | nil =>
    have none : n + missingSpace [] = n := Int.add_zero n
    rw [none]
    exact wraps
  | cons d ds ih =>
    rw [downloadsOnDisk, List.foldl_cons, missingSpace, missingSizes]
    cases missing : d.update.tag.isNone with
    | true =>
      have more := ih (wraps.add (.of_eq (a := sizeOnDisk d.update.update.size) rfl))
      rw [Int.add_assoc] at more
      rw [List.filter_cons_of_pos (p := fun d : DeltaInfo => d.update.tag.isNone) missing, if_pos rfl]
      exact more
    | false =>
      rw [List.filter_cons_of_neg (p := fun d : DeltaInfo => d.update.tag.isNone) (by simp [missing]),
        if_neg Bool.false_ne_true]
      exact ih wraps

/-- What deltas make is so large that the code rounds it exactly. -/
def Rounds (ds : List DeltaInfo) : Prop :=
  ∀ d ∈ ds, 0 ≤ d.update.applied.size.toInt ∧ d.update.applied.size.toInt ≤ 2 ^ 63 - 262144

theorem Rounds.of_cons {d : DeltaInfo} {ds : List DeltaInfo} (rounds : Rounds (d :: ds)) : Rounds ds :=
  fun d' member => rounds d' (List.mem_cons_of_mem _ member)

/-- Some delta makes the largest ZIP. -/
theorem largest_attained {ds : List DeltaInfo} (rounds : Rounds ds) (nonempty : ds ≠ []) :
    ∃ d ∈ ds, largest ds = blocks d.update.applied.size.toInt := by
  induction ds with
  | nil => exact absurd rfl nonempty
  | cons d ds ih =>
    by_cases larger : largest ds ≤ blocks d.update.applied.size.toInt
    · refine ⟨d, List.mem_cons_self .., ?_⟩
      rw [largest]
      omega
    · have some : ds ≠ [] := by
        rintro rfl
        have := le_blocks d.update.applied.size.toInt
        have := (rounds d (List.mem_cons_self ..)).1
        rw [largest] at larger
        omega
      obtain ⟨d', member, attained⟩ := ih rounds.of_cons some
      refine ⟨d', List.mem_cons_of_mem _ member, ?_⟩
      rw [largest]
      omega

theorem largest_le {ds : List DeltaInfo} (rounds : Rounds ds) : largest ds ≤ 2 ^ 63 - 262144 := by
  induction ds with
  | nil => decide
  | cons d ds ih =>
    have here := (rounds d (List.mem_cons_self ..)).2
    have rest := ih rounds.of_cons
    rw [largest, blocks]
    omega

theorem biggestOnDisk_toInt {ds : List DeltaInfo} (rounds : Rounds ds) {biggest : Int64} (least : 0 ≤ biggest.toInt) :
    (biggestOnDisk ds biggest).toInt = max biggest.toInt (largest ds) := by
  induction ds generalizing biggest with
  | nil =>
    rw [biggestOnDisk, List.foldl_nil, largest]
    omega
  | cons d ds ih =>
    have here := rounds d (List.mem_cons_self ..)
    have exact := sizeOnDisk_toInt here.1 here.2
    rw [biggestOnDisk, List.foldl_cons, ← biggestOnDisk, ih rounds.of_cons, toInt_max, exact, largest]
    · omega
    · rw [toInt_max]
      omega

/-- The formula, up to multiples of 2⁶⁴. -/
theorem getRequiredSpace_wraps {ds : List DeltaInfo} (rounds : Rounds ds) (last : DeltaInfo)
    (signature : E.config.applySignature = true → 0 ≤ last.signature.update.size.toInt ∧
      last.signature.update.size.toInt ≤ 2 ^ 63 - 262144) :
    Wraps (getRequiredSpace E ds last false) (missingSpace ds + signatureBlocks E last + 2 * largest ds) := by
  have zero : (0 : Int64).toInt = 0 := by decide
  have biggest : (sizeOnDisk (biggestOnDisk ds 0)).toInt = largest ds := by
    have least := largest_nonneg ds
    have most := largest_le rounds
    have all := biggestOnDisk_toInt rounds (Int.le_of_eq zero.symm)
    rw [zero, Int.max_eq_right least] at all
    rw [sizeOnDisk_toInt (by omega) (by omega), all, blocks_of_dvd (largest_dvd ds)]
  have downloads := downloadsOnDisk_wraps ds (.of_eq zero)
  rw [Int.zero_add] at downloads
  rw [getRequiredSpace_eq, signatureBlocks]
  refine .add ?_ (Wraps.two_mul (.of_eq biggest))
  split
  · obtain ⟨size, most⟩ := signature ‹_›
    exact downloads.add (.of_eq (sizeOnDisk_toInt size most))
  · rw [Int.add_zero]
    exact downloads

/-! ## Cached files -/

/-- A delta with its update file on the storage. -/
def DeltaInfo.cached (d : DeltaInfo) : DeltaInfo :=
  { d.untagged with update := { d.update with tag := some d.update.name } }

/-- The sizes of a delta are those of files. -/
structure DeltaInfo.Sized (d : DeltaInfo) : Prop where
  store : 0 ≤ d.input.store.size.toInt
  update : 0 ≤ d.update.update.size.toInt
  applied : 0 ≤ d.update.applied.size.toInt
  signature : 0 ≤ d.signature.update.size.toInt
  signed : 0 ≤ d.signature.applied.size.toInt

/-- **Whichever of the delta files are cached**, `getRequiredSpace` is no less
than what the build holds at any moment. -/
def Covers (E : Env) (deltas : List DeltaInfo) (needsProcessing : Bool) : Prop :=
  ∀ ds first last, ds.map DeltaInfo.untagged = deltas.map DeltaInfo.untagged → ds.head? = some first → ds.getLast? = some last →
    StaysWithin (getRequiredSpace E ds last false).toInt .nothing (buildWork E ds first last needsProcessing)

section Untagged

variable {ds deltas : List DeltaInfo}

/-- What does not depend on tags. -/
theorem map_of_untagged {α : Type} (f : DeltaInfo → α) (blind : ∀ d, f d.untagged = f d)
    (same : ds.map DeltaInfo.untagged = deltas.map DeltaInfo.untagged) : ds.map f = deltas.map f := by
  have through : ∀ l : List DeltaInfo, l.map f = (l.map DeltaInfo.untagged).map f := by
    intro l
    rw [List.map_map]
    exact List.map_congr_left fun d _ => (blind d).symm
  rw [through ds, same, ← through]

theorem largest_untagged (ds : List DeltaInfo) : largest (ds.map DeltaInfo.untagged) = largest ds := by
  induction ds with
  | nil => rfl
  | cons d ds ih =>
    rw [List.map_cons, largest, ih]
    rfl

theorem forall_of_untagged {p : DeltaInfo → Prop} (blind : ∀ d, p d.untagged ↔ p d)
    (same : ds.map DeltaInfo.untagged = deltas.map DeltaInfo.untagged) (all : ∀ d ∈ deltas, p d) : ∀ d ∈ ds, p d := by
  intro d member
  have image : d.untagged ∈ deltas.map DeltaInfo.untagged := same ▸ List.mem_map_of_mem member
  obtain ⟨d', listed, equal⟩ := List.mem_map.mp image
  rw [← blind, ← equal, blind]
  exact all d' listed

theorem sized_of_untagged (same : ds.map DeltaInfo.untagged = deltas.map DeltaInfo.untagged)
    (sized : ∀ d ∈ deltas, d.Sized) : ∀ d ∈ ds, d.Sized :=
  forall_of_untagged (fun _ => ⟨fun s => ⟨s.store, s.update, s.applied, s.signature, s.signed⟩,
    fun s => ⟨s.store, s.update, s.applied, s.signature, s.signed⟩⟩) same sized

theorem getLast_of_untagged {last last' : DeltaInfo} (same : ds.map DeltaInfo.untagged = deltas.map DeltaInfo.untagged)
    (ends : ds.getLast? = some last) (ends' : deltas.getLast? = some last') : last.untagged = last'.untagged := by
  have images : (ds.map DeltaInfo.untagged).getLast? = (deltas.map DeltaInfo.untagged).getLast? := by rw [same]
  rw [List.getLast?_map, List.getLast?_map, ends, ends'] at images
  exact Option.some.inj images

theorem head_of_untagged {first first' : DeltaInfo} (same : ds.map DeltaInfo.untagged = deltas.map DeltaInfo.untagged)
    (starts : ds.head? = some first) (starts' : deltas.head? = some first') : first.untagged = first'.untagged := by
  have images : (ds.map DeltaInfo.untagged).head? = (deltas.map DeltaInfo.untagged).head? := by rw [same]
  rw [List.head?_map, List.head?_map, starts, starts'] at images
  exact Option.some.inj images

end Untagged

/-! ## What a build takes -/

section Build

variable {deltas : List DeltaInfo} {first last : DeltaInfo}

theorem patchSizes_nonneg (starts : deltas.head? = some first) (ends : deltas.getLast? = some last)
    (sized : ∀ d ∈ deltas, d.Sized) (needsProcessing : Bool) :
    ∀ size ∈ patchSizes E deltas first last needsProcessing, 0 ≤ size := by
  have store := (sized first (List.mem_of_mem_head? starts)).store
  have signed := (sized last (List.mem_of_mem_getLast? ends)).signed
  intro size member
  rw [patchSizes] at member
  rcases List.mem_append.mp member with adjusted | member
  · split at adjusted
    · rw [List.mem_singleton.mp adjusted]
      exact store
    · cases adjusted
  · rcases List.mem_append.mp member with applied | signature
    · obtain ⟨d, listed, rfl⟩ := List.mem_map.mp applied
      exact (sized d listed).applied
    · split at signature
      · rw [List.mem_singleton.mp signature]
        exact signed
      · cases signature

theorem downloadSizes_nonneg (ends : deltas.getLast? = some last) (sized : ∀ d ∈ deltas, d.Sized) :
    ∀ size ∈ downloadSizes E deltas last, 0 ≤ size := by
  have signed := (sized last (List.mem_of_mem_getLast? ends)).signature
  intro size member
  rcases List.mem_append.mp member with update | signature
  · obtain ⟨d, listed, rfl⟩ := List.mem_map.mp update
    exact (sized d (List.mem_of_mem_filter listed)).update
  · split at signature
    · rw [List.mem_singleton.mp signature]
      exact signed
    · cases signature

theorem patchSizes_ne_nil (starts : deltas.head? = some first) (last : DeltaInfo) (needsProcessing : Bool) :
    patchSizes E deltas first last needsProcessing ≠ [] := by
  cases deltas with
  | nil => cases starts
  | cons d ds => simp [patchSizes]

/-- A build stays within what its downloads and the peak of its outputs are together. -/
theorem staysWithin_build (starts : deltas.head? = some first) (ends : deltas.getLast? = some last)
    (sized : ∀ d ∈ deltas, d.Sized) (needsProcessing : Bool) (space : Int) :
    StaysWithin space .nothing (buildWork E deltas first last needsProcessing) ↔
      (downloadSizes E deltas last).sum + peak 0 0 (patchSizes E deltas first last needsProcessing) ≤ space := by
  have empty : Held.nothing = .turn 0 0 0 0 := rfl
  rw [buildWork, empty, staysWithin_downloads (patchSizes_ne_nil starts last needsProcessing)
    (downloadSizes_nonneg ends sized) (patchSizes_nonneg starts ends sized needsProcessing), Int.zero_add]

/-- The outputs of a build stay within a space that twice the largest result of a delta fits in. -/
theorem peak_patchSizes_iff (last : DeltaInfo) (starts : deltas.head? = some first) (sized : ∀ d ∈ deltas, d.Sized)
    (needsProcessing : Bool) (space : Int) (half : 2 * largest deltas ≤ space) :
    peak 0 0 (patchSizes E deltas first last needsProcessing) ≤ space ↔
      (needsProcessing = true → first.input.store.size.toInt + first.update.applied.size.toInt ≤ space) ∧
        lastThree (patchSizes E deltas first last needsProcessing) ≤ space := by
  obtain ⟨rest, rfl⟩ : ∃ rest, deltas = first :: rest := by
    cases deltas with
    | nil => cases starts
    | cons d rest => exact ⟨rest, by rw [Option.some.inj starts]⟩
  have applied := (sized first (List.mem_cons_self ..)).applied
  have small : ∀ size ∈ (((first :: rest).map (·.update.applied.size.toInt)) ++
      if E.config.applySignature then [last.signature.applied.size.toInt] else []).dropLast,
      size ≤ largest (first :: rest) := by
    intro size member
    have made : size ∈ (first :: rest).map (·.update.applied.size.toInt) := by
      split at member
      · rwa [List.dropLast_concat] at member
      · rw [List.append_nil] at member
        exact List.dropLast_subset _ member
    obtain ⟨d, listed, rfl⟩ := List.mem_map.mp made
    exact le_largest listed
  cases needsProcessing with
  | false =>
    have sizes : patchSizes E (first :: rest) first last false = (first :: rest).map (·.update.applied.size.toInt) ++
        if E.config.applySignature then [last.signature.applied.size.toInt] else [] := rfl
    have decided := peak_le_iff half (by simp) small (largest_nonneg _) 0
    rw [lastThree_zeros] at decided
    rw [sizes, decided]
    simp
  | true =>
    have sizes : patchSizes E (first :: rest) first last true = first.input.store.size.toInt ::
        first.update.applied.size.toInt :: (rest.map (·.update.applied.size.toInt) ++
          if E.config.applySignature then [last.signature.applied.size.toInt] else []) := rfl
    rw [sizes]
    exact (peak_adjusted_iff half _ applied small).trans (by simp)

end Build

/-! ## When the check covers a build -/

/-- What a build needs beyond its downloads fits in twice the largest result of a
delta, next to what rounding adds to the signature's delta file. -/
structure SpaceSuffices (E : Env) (deltas : List DeltaInfo) (first last : DeltaInfo) (needsProcessing : Bool) :
    Prop where
  /-- The formula stays a `long`, whatever is cached. -/
  fits : (deltas.map fun d => blocks d.update.update.size.toInt).sum + signatureBlocks E last +
    2 * largest deltas < 2 ^ 63
  /-- `zipadjust`'s output next to that of the first delta. -/
  adjusted : needsProcessing = true → first.input.store.size.toInt + first.update.applied.size.toInt ≤
    2 * largest deltas + (signatureBlocks E last - signatureSize E last)
  /-- The result next to both temporary files. -/
  ending : lastThree (patchSizes E deltas first last needsProcessing) ≤
    2 * largest deltas + (signatureBlocks E last - signatureSize E last)

section Covers

variable {deltas : List DeltaInfo} {first last : DeltaInfo} {needsProcessing : Bool}

theorem patchSizes_untagged {ds : List DeltaInfo} {first' last' : DeltaInfo}
    (same : ds.map DeltaInfo.untagged = deltas.map DeltaInfo.untagged) (starts : first'.untagged = first.untagged)
    (ends : last'.untagged = last.untagged) (needsProcessing : Bool) :
    patchSizes E ds first' last' needsProcessing = patchSizes E deltas first last needsProcessing := by
  have store : first'.input.store = first.input.store := congrArg (·.input.store) starts
  have signed : last'.signature.applied = last.signature.applied := congrArg (·.signature.applied) ends
  rw [patchSizes, patchSizes, map_of_untagged (·.update.applied.size.toInt) (fun _ => rfl) same, store, signed]

theorem signature_untagged {last last' : DeltaInfo} (ends : last'.untagged = last.untagged) :
    last'.signature.update = last.signature.update := congrArg (·.signature.update) ends

/-- With the updates of `missing` and the signature to be downloaded. -/
def withMissing (missing rest : List DeltaInfo) : List DeltaInfo :=
  missing.map DeltaInfo.untagged ++ rest.map DeltaInfo.cached

theorem withMissing_untagged (missing rest : List DeltaInfo) :
    (withMissing missing rest).map DeltaInfo.untagged = (missing ++ rest).map DeltaInfo.untagged := by
  rw [withMissing, List.map_append, List.map_map, List.map_map, List.map_append]
  rfl

theorem withMissing_filter (missing rest : List DeltaInfo) :
    (withMissing missing rest).filter (·.update.tag.isNone) = missing.map DeltaInfo.untagged := by
  rw [withMissing, List.filter_append, List.filter_eq_self.mpr, List.filter_eq_nil_iff.mpr, List.append_nil]
  · intro d member
    obtain ⟨d', -, rfl⟩ := List.mem_map.mp member
    exact Bool.false_ne_true
  · intro d member
    obtain ⟨d', -, rfl⟩ := List.mem_map.mp member
    rfl

theorem withMissing_signature {missing rest : List DeltaInfo} {d : DeltaInfo} (member : d ∈ withMissing missing rest) :
    d.signature.tag = none := by
  rcases List.mem_append.mp member with member | member
  · obtain ⟨d', -, rfl⟩ := List.mem_map.mp member
    rfl
  · obtain ⟨d', -, rfl⟩ := List.mem_map.mp member
    rfl

/-- What is asked for and what is held when the updates of `missing` are not there, nor the signature. -/
theorem Covers.missing (covers : Covers E deltas needsProcessing) (starts : deltas.head? = some first)
    (ends : deltas.getLast? = some last) (sized : ∀ d ∈ deltas, d.Sized) {missing rest : List DeltaInfo}
    (split : missing ++ rest = deltas) :
    ∃ last', last'.untagged = last.untagged ∧
      (missing.map (·.update.update.size.toInt)).sum + signatureSize E last +
          peak 0 0 (patchSizes E deltas first last needsProcessing) ≤
        (getRequiredSpace E (withMissing missing rest) last' false).toInt := by
  subst split
  have same := withMissing_untagged missing rest
  obtain ⟨first', starts'⟩ : ∃ first', (withMissing missing rest).head? = some first' := by
    have images : ((withMissing missing rest).map DeltaInfo.untagged).head? = some first.untagged := by
      rw [same, List.head?_map, starts, Option.map_some]
    rw [List.head?_map, Option.map_eq_some_iff] at images
    exact ⟨images.choose, images.choose_spec.1⟩
  obtain ⟨last', ends'⟩ : ∃ last', (withMissing missing rest).getLast? = some last' := by
    have images : ((withMissing missing rest).map DeltaInfo.untagged).getLast? = some last.untagged := by
      rw [same, List.getLast?_map, ends, Option.map_some]
    rw [List.getLast?_map, Option.map_eq_some_iff] at images
    exact ⟨images.choose, images.choose_spec.1⟩
  have lasts := getLast_of_untagged same ends' ends
  have downloads : (downloadSizes E (withMissing missing rest) last').sum =
      (missing.map (·.update.update.size.toInt)).sum + signatureSize E last := by
    rw [downloadSizes, withMissing_filter, List.sum_append, List.map_map, signatureSize,
      withMissing_signature (List.mem_of_mem_getLast? ends'), signature_untagged lasts]
    cases E.config.applySignature <;> simp [DeltaInfo.untagged, Function.comp_def]
  have within := (staysWithin_build starts' ends' (sized_of_untagged same sized) needsProcessing _).mp
    (covers _ first' last' same starts' ends')
  rw [downloads, patchSizes_untagged same (head_of_untagged same starts' starts) lasts] at within
  exact ⟨last', lasts, within⟩

theorem missingSpace_withMissing {missing rest : List DeltaInfo}
    (rounds : ∀ d ∈ missing, 0 ≤ d.update.update.size.toInt ∧ d.update.update.size.toInt ≤ 2 ^ 63 - 262144) :
    missingSpace (withMissing missing rest) = (missing.map fun d => blocks d.update.update.size.toInt).sum := by
  have sizes : missingSizes (withMissing missing rest) = missing.map (·.update.update.size) := by
    rw [missingSizes, withMissing_filter, List.map_map]
    rfl
  rw [missingSpace, sizes, spaceOnDisk_toInt, List.map_map]
  · rfl
  · intro size member
    obtain ⟨d, listed, rfl⟩ := List.mem_map.mp member
    exact rounds d listed

theorem le_sum_of_mem {sizes : List Int} (nonneg : ∀ size ∈ sizes, 0 ≤ size) {size : Int} (member : size ∈ sizes) :
    size ≤ sizes.sum := by
  obtain ⟨before, after, rfl⟩ := List.append_of_mem member
  have front := sum_nonneg fun s listed => nonneg s (List.mem_append_left _ listed)
  have back := sum_nonneg fun s listed => nonneg s (List.mem_append_right _ (List.mem_cons_of_mem size listed))
  rw [List.sum_append, List.sum_cons]
  omega

theorem updates_nonneg (sized : ∀ d ∈ deltas, d.Sized) :
    ∀ size ∈ deltas.map (·.update.update.size.toInt), 0 ≤ size := by
  intro size member
  obtain ⟨d, listed, rfl⟩ := List.mem_map.mp member
  exact (sized d listed).update

theorem signature_le (last : DeltaInfo) : signatureSize E last ≤ signatureBlocks E last ∧
    signatureBlocks E last < signatureSize E last + 262144 := by
  rw [signatureSize, signatureBlocks]
  split
  · exact ⟨le_blocks _, blocks_lt _⟩
  · decide

theorem signatureSize_nonneg (sized : last.Sized) : 0 ≤ signatureSize E last := by
  rw [signatureSize]
  split
  · exact sized.signature
  · exact Int.le_refl 0

/-- A covered build has no size in the last block of a `long`. -/
theorem Covers.sizes (covers : Covers E deltas needsProcessing) (starts : deltas.head? = some first)
    (ends : deltas.getLast? = some last) (sized : ∀ d ∈ deltas, d.Sized) :
    (∀ d ∈ deltas, d.update.update.size.toInt ≤ 2 ^ 63 - 262144) ∧ Rounds deltas ∧
      signatureSize E last ≤ 2 ^ 63 - 262144 := by
  obtain ⟨last', -, within⟩ := covers.missing starts ends sized (List.append_nil deltas)
  have whole := getRequiredSpace_dvd (E := E) (withMissing deltas []) last'
  have long := (getRequiredSpace E (withMissing deltas []) last' false).toInt_lt
  have outputs := patchSizes_nonneg (E := E) starts ends sized needsProcessing
  have fetched := sum_nonneg (updates_nonneg sized)
  have signature : 0 ≤ signatureSize E last := signatureSize_nonneg (sized last (List.mem_of_mem_getLast? ends))
  have written : 0 ≤ peak 0 0 (patchSizes E deltas first last needsProcessing) :=
    newer_le_peak outputs (Int.le_refl 0)
  refine ⟨fun d member => ?_, fun d member => ⟨(sized d member).applied, ?_⟩, by omega⟩
  · have here := le_sum_of_mem (updates_nonneg sized) (List.mem_map_of_mem member)
    omega
  · have listed : d.update.applied.size.toInt ∈ patchSizes E deltas first last needsProcessing :=
      List.mem_append_right _ (List.mem_append_left _ (List.mem_map_of_mem member))
    have here := size_le_peak outputs (Int.le_refl 0) (Int.le_refl 0) _ listed
    omega

/-- What a covered build asks for and holds, in whole numbers. -/
theorem Covers.asks (covers : Covers E deltas needsProcessing) (starts : deltas.head? = some first)
    (ends : deltas.getLast? = some last) (sized : ∀ d ∈ deltas, d.Sized) {missing rest : List DeltaInfo}
    (split : missing ++ rest = deltas) :
    ∃ space q : Int, space < 2 ^ 63 ∧
      space = (missing.map fun d => blocks d.update.update.size.toInt).sum + signatureBlocks E last +
        2 * largest deltas + 2 ^ 64 * q ∧
      (missing.map (·.update.update.size.toInt)).sum + signatureSize E last +
        peak 0 0 (patchSizes E deltas first last needsProcessing) ≤ space := by
  obtain ⟨updates, rounds, signature⟩ := covers.sizes starts ends sized
  obtain ⟨last', lasts, within⟩ := covers.missing starts ends sized split
  have same : (withMissing missing rest).map DeltaInfo.untagged = deltas.map DeltaInfo.untagged :=
    split ▸ withMissing_untagged missing rest
  have largest' : largest (withMissing missing rest) = largest deltas := by
    rw [← largest_untagged, same, largest_untagged]
  have rounds' : Rounds (withMissing missing rest) := forall_of_untagged (fun _ => Iff.rfl) same rounds
  have update' := signature_untagged lasts
  obtain ⟨q, asked⟩ := getRequiredSpace_wraps (E := E) rounds' last' (by
    intro signed
    rw [signatureSize, if_pos signed] at signature
    rw [update']
    exact ⟨(sized last (List.mem_of_mem_getLast? ends)).signature, signature⟩)
  have listed : ∀ d ∈ missing, d ∈ deltas := fun d member => split ▸ List.mem_append_left _ member
  rw [missingSpace_withMissing fun d member => ⟨(sized d (listed d member)).update, updates d (listed d member)⟩,
    largest', signatureBlocks, update', ← signatureBlocks] at asked
  exact ⟨_, q, Int64.toInt_lt _, asked, within⟩

/-- Each further download leaves the formula below 2⁶³: it would come out
negative where it first goes past. -/
theorem Covers.fits (covers : Covers E deltas needsProcessing) (starts : deltas.head? = some first)
    (ends : deltas.getLast? = some last) (sized : ∀ d ∈ deltas, d.Sized) {missing rest : List DeltaInfo}
    (split : missing ++ rest = deltas) :
    (missing.map fun d => blocks d.update.update.size.toInt).sum + signatureBlocks E last +
      2 * largest deltas < 2 ^ 63 := by
  obtain ⟨updates, rounds, signature⟩ := covers.sizes starts ends sized
  have outputs := patchSizes_nonneg (E := E) starts ends sized needsProcessing
  have padding := signature_le (E := E) last
  have signatureNonneg : 0 ≤ signatureSize E last := signatureSize_nonneg (sized last (List.mem_of_mem_getLast? ends))
  have least := largest_nonneg deltas
  have most := largest_le rounds
  induction missing using List.reverseRecOn generalizing rest with
  | nil =>
    have nonempty : deltas ≠ [] := by
      rintro rfl
      cases starts
    obtain ⟨d, member, attained⟩ := largest_attained rounds nonempty
    have rounded := blocks_lt d.update.applied.size.toInt
    have listed : d.update.applied.size.toInt ∈ patchSizes E deltas first last needsProcessing :=
      List.mem_append_right _ (List.mem_append_left _ (List.mem_map_of_mem member))
    have written := size_le_peak outputs (Int.le_refl 0) (Int.le_refl 0) _ listed
    obtain ⟨space, q, long, asked, within⟩ := covers.asks starts ends sized split
    rw [List.map_nil, List.sum_nil] at asked within ⊢
    omega
  | append_singleton missing d ih =>
    have shorter : missing ++ d :: rest = deltas := by rw [← split, List.append_assoc, List.singleton_append]
    have before := ih shorter
    have listed : d ∈ deltas := split ▸ List.mem_append_left _ (List.mem_append_right _ (List.mem_singleton_self d))
    have update := updates d listed
    have rounded := blocks_lt d.update.update.size.toInt
    have written : 0 ≤ peak 0 0 (patchSizes E deltas first last needsProcessing) :=
      newer_le_peak outputs (Int.le_refl 0)
    have fetched : 0 ≤ ((missing ++ [d]).map (·.update.update.size.toInt)).sum :=
      sum_nonneg (updates_nonneg fun d' member => sized d' (split ▸ List.mem_append_left _ member))
    obtain ⟨space, q, long, asked, within⟩ := covers.asks starts ends sized split
    rw [List.map_append, List.sum_append, List.map_cons, List.map_nil, List.sum_cons, List.sum_nil] at asked ⊢
    omega

/-- What is asked for the downloads is no less than they are, and most if none is cached. -/
theorem missingSpace_bounds {ds : List DeltaInfo}
    (rounds : ∀ d ∈ ds, 0 ≤ d.update.update.size.toInt ∧ d.update.update.size.toInt ≤ 2 ^ 63 - 262144) :
    ((ds.filter (·.update.tag.isNone)).map (·.update.update.size.toInt)).sum ≤ missingSpace ds ∧
      missingSpace ds ≤ (ds.map fun d => blocks d.update.update.size.toInt).sum := by
  have exact : missingSpace ds =
      ((ds.filter (·.update.tag.isNone)).map fun d => blocks d.update.update.size.toInt).sum := by
    rw [missingSpace, missingSizes, spaceOnDisk_toInt, List.map_map]
    · rfl
    · intro size member
      obtain ⟨d, listed, rfl⟩ := List.mem_map.mp member
      exact rounds d (List.mem_of_mem_filter listed)
  rw [exact]
  clear exact
  induction ds with
  | nil => decide
  | cons d ds ih =>
    obtain ⟨least, most⟩ := ih fun d' member => rounds d' (List.mem_cons_of_mem _ member)
    have here := (rounds d (List.mem_cons_self ..)).1
    have larger := le_blocks d.update.update.size.toInt
    rw [List.map_cons, List.sum_cons]
    cases missing : d.update.tag.isNone with
    | true =>
      simp only [List.filter_cons, missing, if_true, List.map_cons, List.sum_cons]
      omega
    | false =>
      simp only [List.filter_cons, missing, Bool.false_eq_true, if_false]
      omega

/-- A sum below 2⁶³ has no size in the last block of a `long`. -/
theorem SpaceSuffices.sizes (enough : SpaceSuffices E deltas first last needsProcessing)
    (ends : deltas.getLast? = some last) (sized : ∀ d ∈ deltas, d.Sized) :
    (∀ d ∈ deltas, d.update.update.size.toInt ≤ 2 ^ 63 - 262144) ∧ Rounds deltas ∧
      signatureSize E last ≤ 2 ^ 63 - 262144 := by
  have fits := enough.fits
  have nonneg : ∀ size ∈ deltas.map fun d => blocks d.update.update.size.toInt, 0 ≤ size := by
    intro size member
    obtain ⟨d, listed, rfl⟩ := List.mem_map.mp member
    exact Int.le_trans (sized d listed).update (le_blocks _)
  have fetched := sum_nonneg nonneg
  have signatureNonneg : 0 ≤ signatureSize E last := signatureSize_nonneg (sized last (List.mem_of_mem_getLast? ends))
  have padding := signature_le (E := E) last
  have least := largest_nonneg deltas
  have whole := largest_dvd deltas
  refine ⟨fun d member => ?_, fun d member => ⟨(sized d member).applied, ?_⟩, ?_⟩
  · have here := le_sum_of_mem nonneg (List.mem_map_of_mem member)
    have larger := le_blocks d.update.update.size.toInt
    have rounded := blocks_dvd d.update.update.size.toInt
    omega
  · have here := le_largest member
    omega
  · rw [signatureBlocks] at fits
    rw [signatureSize]
    split
    · rw [if_pos ‹_›] at fits
      have larger := le_blocks last.signature.update.size.toInt
      have rounded := blocks_dvd last.signature.update.size.toInt
      omega
    · decide

theorem SpaceSuffices.covers (enough : SpaceSuffices E deltas first last needsProcessing)
    (starts : deltas.head? = some first) (ends : deltas.getLast? = some last) (sized : ∀ d ∈ deltas, d.Sized) :
    Covers E deltas needsProcessing := by
  intro ds first' last' same starts' ends'
  obtain ⟨updates, rounds, signature⟩ := enough.sizes ends sized
  have lasts := getLast_of_untagged same ends' ends
  have update' := signature_untagged lasts
  have largest' : largest ds = largest deltas := by
    rw [← largest_untagged, same, largest_untagged]
  have sized' := sized_of_untagged same sized
  have updates' : ∀ d ∈ ds, 0 ≤ d.update.update.size.toInt ∧ d.update.update.size.toInt ≤ 2 ^ 63 - 262144 :=
    forall_of_untagged (p := fun d => 0 ≤ d.update.update.size.toInt ∧ d.update.update.size.toInt ≤ 2 ^ 63 - 262144)
      (fun _ => Iff.rfl) same fun d member => ⟨(sized d member).update, updates d member⟩
  obtain ⟨q, asked⟩ := getRequiredSpace_wraps (E := E) (forall_of_untagged (fun _ => Iff.rfl) same rounds) last' (by
    intro signed
    rw [signatureSize, if_pos signed] at signature
    rw [update']
    exact ⟨(sized last (List.mem_of_mem_getLast? ends)).signature, signature⟩)
  rw [largest', signatureBlocks, update', ← signatureBlocks] at asked
  obtain ⟨held, most⟩ := missingSpace_bounds updates'
  rw [map_of_untagged (fun d => blocks d.update.update.size.toInt) (fun _ => rfl) same] at most
  have fetched : 0 ≤ missingSpace ds := by
    refine Int.le_trans (sum_nonneg ?_) held
    intro size member
    obtain ⟨d, listed, rfl⟩ := List.mem_map.mp member
    exact (sized' d (List.mem_of_mem_filter listed)).update
  have padding := signature_le (E := E) last
  have signatureNonneg : 0 ≤ signatureSize E last := signatureSize_nonneg (sized last (List.mem_of_mem_getLast? ends))
  have fits := enough.fits
  have least := largest_nonneg deltas
  have long := (getRequiredSpace E ds last' false).le_toInt
  have long' := (getRequiredSpace E ds last' false).toInt_lt
  have written := (peak_patchSizes_iff last starts sized needsProcessing _ (by omega)).mpr
    ⟨enough.adjusted, enough.ending⟩
  have downloads : (downloadSizes E ds last').sum ≤
      ((ds.filter (·.update.tag.isNone)).map (·.update.update.size.toInt)).sum + signatureSize E last := by
    rw [downloadSizes, List.sum_append, signatureSize, update']
    refine Int.add_le_add_left ?_ _
    cases signed : E.config.applySignature with
    | false => exact Int.le_refl 0
    | true =>
      have size := (sized last (List.mem_of_mem_getLast? ends)).signature
      cases last'.signature.tag.isNone with
      | true => simp
      | false => simpa using size
  rw [staysWithin_build starts' ends' sized', patchSizes_untagged same (head_of_untagged same starts' starts) lasts]
  omega

/-- **The free-space check covers a build exactly when what `zipadjust` and the
last step make fits in its formula.** -/
theorem covers_iff (starts : deltas.head? = some first) (ends : deltas.getLast? = some last)
    (sized : ∀ d ∈ deltas, d.Sized) (needsProcessing : Bool) :
    Covers E deltas needsProcessing ↔ SpaceSuffices E deltas first last needsProcessing := by
  constructor
  · intro covers
    have fits := covers.fits starts ends sized (List.append_nil deltas)
    obtain ⟨space, q, long, asked, within⟩ := covers.asks starts ends sized (List.nil_append deltas)
    have below := covers.fits starts ends sized (List.nil_append deltas)
    have outputs := patchSizes_nonneg (E := E) starts ends sized needsProcessing
    have written : 0 ≤ peak 0 0 (patchSizes E deltas first last needsProcessing) :=
      newer_le_peak outputs (Int.le_refl 0)
    have padding := signature_le (E := E) last
    have signatureNonneg : 0 ≤ signatureSize E last :=
      signatureSize_nonneg (sized last (List.mem_of_mem_getLast? ends))
    have least := largest_nonneg deltas
    rw [List.map_nil, List.sum_nil] at asked within below
    have decided := (peak_patchSizes_iff (E := E) last starts sized needsProcessing
      (2 * largest deltas + (signatureBlocks E last - signatureSize E last)) (by omega)).mp (by omega)
    exact ⟨fits, decided.1, decided.2⟩
  · exact fun enough => enough.covers starts ends sized

end Covers

/-! ## The bytes of a run -/

/-- The bytes of a file that is there. -/
def fileSize (files : FileStore) (path : String) : Int :=
  match files.read path with
  | none => 0
  | some bytes => bytes.length

/-- The storage has the files that are held. -/
structure Holds (E : Env) (last : DeltaInfo) (files : FileStore) (h : Held) : Prop where
  temp1 : fileSize files (tempFiles E 0) = h.temp1
  temp2 : fileSize files (tempFiles E 1) = h.temp2
  result : fileSize files (patchTarget E last) = h.result

section Bytes

variable {last : DeltaInfo} {w : World} {h : Held}

/-- A call that succeeds has replaced its output. -/
theorem NativeCall.run_files {c : NativeCall} (done : (c.run E w).1 = .done) :
    ∃ bytes, (c.run E w).2.files = (w.files.delete c.output).write c.output bytes := by
  obtain ⟨step, input, output⟩ := c
  cases step with
  | adjust =>
    simp only [NativeCall.run, zipadjust, World.updateState_files] at done ⊢
    split at done
    · cases done
    · split at done
      · exact ⟨_, rfl⟩
      · cases done
      · cases done
  | apply delta =>
    simp only [NativeCall.run, dedelta, World.updateState_files] at done ⊢
    split at done
    · split at done
      · exact ⟨_, rfl⟩
      · cases done
    · cases done

theorem fileSize_replaced {files : FileStore} {path other : String} (ne : files.resolve other ≠ files.resolve path)
    (bytes : Bytes) : fileSize ((files.delete path).write path bytes) other = fileSize files other := by
  rw [fileSize, FileStore.read_write_of_ne (s := files.delete path) ne, FileStore.read_delete_of_ne ne, fileSize]

/-- A call changes what is held as its piece of work does. -/
theorem Holds.step (holds : Holds E last w.files h) (apart : PathsApart E w.files last) {c : NativeCall}
    (done : (c.run E w).1 = .done) (file : BuildFile) (writes : c.output = file.path E last) {size : Int}
    (sized : fileSize (c.run E w).2.files c.output = size) : Holds E last (c.run E w).2.files (h.put file size) := by
  obtain ⟨bytes, files⟩ := NativeCall.run_files done
  rw [writes] at sized files
  rw [files] at sized ⊢
  cases file with
  | temp1 =>
    exact ⟨sized, (fileSize_replaced apart.temps.symm bytes).trans holds.temp2,
      (fileSize_replaced apart.first bytes).trans holds.result⟩
  | temp2 =>
    exact ⟨(fileSize_replaced apart.temps bytes).trans holds.temp1, sized,
      (fileSize_replaced apart.second bytes).trans holds.result⟩
  | result =>
    exact ⟨(fileSize_replaced apart.first.symm bytes).trans holds.temp1,
      (fileSize_replaced apart.second.symm bytes).trans holds.temp2, sized⟩

/-- Each call leaves an output of its size. -/
def LeavesSizes (E : Env) : List NativeCall → List Int → World → Prop
  | c :: cs, size :: sizes, w =>
    fileSize (c.run E w).2.files c.output = size ∧ LeavesSizes E cs sizes (c.run E w).2
  | _, _, _ => True

/-- What is held after some work. -/
def Held.afterAll (h : Held) (works : List Work) : Held := works.foldl (fun h work => h.during work work.size) h

theorem moment_afterAll {works rest : List Work} (nonneg : ∀ work ∈ works, 0 ≤ work.size) (some : works ≠ []) (h : Held) :
    Moment h (works ++ rest) (h.afterAll works) := by
  induction works generalizing h with
  | nil => exact absurd rfl some
  | cons work works ih =>
    cases works with
    | nil => exact .during _ (nonneg work (List.mem_cons_self ..)) (Int.le_refl _)
    | cons work' works =>
      exact .after (ih (fun v member => nonneg v (List.mem_cons_of_mem _ member)) (List.cons_ne_nil _ _) _)

theorem BuildFile.path_temp {k : Nat} (index : k < 2) (last : DeltaInfo) :
    (BuildFile.temp k).path E last = tempFiles E k := by
  obtain rfl | rfl : k = 0 ∨ k = 1 := by omega
  · rfl
  · rfl

theorem PathsApart.run (apart : PathsApart E w.files last) {c : NativeCall} (done : (c.run E w).1 = .done) :
    PathsApart E (c.run E w).2.files last := by
  obtain ⟨bytes, files⟩ := NativeCall.run_files done
  rw [files]
  exact ⟨apart.temps, apart.first, apart.second⟩

/-- The calls of a relay do the work of its outputs. -/
theorem Holds.relayed {steps : List PatchStep} {sizes : List Int} (lengths : steps.length = sizes.length)
    {input : String} {k : Nat} (index : k < 2) (n : Nat) (holds : Holds E last w.files h)
    (apart : PathsApart E w.files last)
    (sized : LeavesSizes E ((relay E (patchTarget E last) input k steps).take n) sizes w)
    (done : (runCalls E ((relay E (patchTarget E last) input k steps).take n) w).1 = .done) :
    Holds E last (runCalls E ((relay E (patchTarget E last) input k steps).take n) w).2.files
      (h.afterAll ((outputs k sizes).take n)) := by
  induction n generalizing steps sizes input k w h with
  | zero => exact holds
  | succ n ih =>
    cases steps with
    | nil =>
      obtain rfl : sizes = [] := List.length_eq_zero_iff.mp lengths.symm
      exact holds
    | cons step steps =>
      obtain ⟨size, sizes, rfl⟩ : ∃ size rest, sizes = size :: rest := List.exists_cons_of_length_eq_add_one lengths.symm
      cases steps with
      | nil =>
        obtain rfl : sizes = [] := List.length_eq_zero_iff.mp (Nat.succ.inj lengths).symm
        rw [relay, List.take_succ_cons, List.take_nil] at sized done ⊢
        rw [runCalls_singleton] at done ⊢
        rw [outputs, List.take_succ_cons, List.take_nil]
        exact holds.step apart done .result rfl sized.1
      | cons step' steps =>
        obtain ⟨size', sizes, rfl⟩ : ∃ size rest, sizes = size :: rest :=
          List.exists_cons_of_length_eq_add_one (Nat.succ.inj lengths).symm
        rw [relay_cons_cons, List.take_succ_cons] at sized done ⊢
        rw [runCalls_cons] at done ⊢
        rw [outputs, List.take_succ_cons]
        by_cases succeeds : ((NativeCall.mk step input (tempFiles E k)).run E w).1 = .done
        · rw [if_pos succeeds] at done ⊢
          exact ih (Nat.succ.inj lengths) (Nat.mod_lt _ (by decide))
            (holds.step apart succeeds (.temp k) (BuildFile.path_temp index last).symm sized.1) (apart.run succeeds) sized.2 done
        · rw [if_neg succeeds] at done
          exact absurd done succeeds

theorem patchSteps_length (deltas : List DeltaInfo) (first last : DeltaInfo) (needsProcessing : Bool) :
    (patchSteps E deltas last needsProcessing).length = (patchSizes E deltas first last needsProcessing).length := by
  rw [patchSteps, patchSizes, signatureSteps, List.length_append, List.length_append, List.length_append,
    List.length_append, List.length_map, List.length_map]
  split <;> split <;> rfl

theorem outputs_nonneg {sizes : List Int} (nonneg : ∀ size ∈ sizes, 0 ≤ size) (k : Nat) :
    ∀ work ∈ outputs k sizes, 0 ≤ work.size := by
  induction sizes generalizing k with
  | nil => simp [outputs]
  | cons size sizes ih =>
    have here := nonneg size (List.mem_cons_self ..)
    cases sizes with
    | nil =>
      rw [outputs, List.forall_mem_singleton]
      exact here
    | cons size' sizes =>
      rw [outputs, List.forall_mem_cons]
      exact ⟨here, ih (fun s member => nonneg s (List.mem_cons_of_mem _ member)) _⟩

theorem outputs_write {sizes : List Int} (k : Nat) : ∀ work ∈ outputs k sizes, ∃ file size, work = .write file size := by
  induction sizes generalizing k with
  | nil => simp [outputs]
  | cons size sizes ih =>
    cases sizes with
    | nil =>
      rw [outputs, List.forall_mem_singleton]
      exact ⟨_, _, rfl⟩
    | cons size' sizes =>
      rw [outputs, List.forall_mem_cons]
      exact ⟨⟨_, _, rfl⟩, ih _⟩

theorem Held.afterAll_writes {works : List Work} (writes : ∀ work ∈ works, ∃ file size, work = .write file size)
    (h : Held) : (h.afterAll works).downloads = h.downloads := by
  induction works generalizing h with
  | nil => rfl
  | cons work works ih =>
    obtain ⟨file, size, rfl⟩ := writes work (List.mem_cons_self ..)
    refine (ih (fun v member => writes v (List.mem_cons_of_mem _ member)) _).trans ?_
    cases file <;> rfl

theorem Held.afterAll_downloads (sizes : List Int) (h : Held) :
    h.afterAll (sizes.map .download) = { h with downloads := h.downloads + sizes.sum } := by
  induction sizes generalizing h with
  | nil => simp [Held.afterAll]
  | cons size sizes ih =>
    refine (ih _).trans ?_
    simp [Held.during, Work.size, Int.add_assoc]

/-- The storage after the first `n` calls of a build. -/
def patchedFiles (E : Env) (deltas : List DeltaInfo) (last : DeltaInfo) (file : String) (needsProcessing : Bool)
    (n : Nat) (w : World) : FileStore :=
  (runCalls E ((patchCalls E deltas last file needsProcessing).take n) w).2.files

/-- **While the patches of a covered build are applied, the storage has no more
bytes of it than the check asked for**: after any number of calls that leave
outputs of the sizes that the metadata give. -/
theorem Covers.held {deltas : List DeltaInfo} {first : DeltaInfo} {needsProcessing : Bool} {file : String}
    (covers : Covers E deltas needsProcessing) (starts : deltas.head? = some first)
    (ends : deltas.getLast? = some last) (sized : ∀ d ∈ deltas, d.Sized) (apart : PathsApart E w.files last)
    (fresh : Holds E last w.files .nothing) {n : Nat} (called : n ≠ 0)
    (sizes : LeavesSizes E ((patchCalls E deltas last file needsProcessing).take n)
      (patchSizes E deltas first last needsProcessing) w)
    (done : (runCalls E ((patchCalls E deltas last file needsProcessing).take n) w).1 = .done) :
    (downloadSizes E deltas last).sum +
        fileSize (patchedFiles E deltas last file needsProcessing n w) (tempFiles E 0) +
        fileSize (patchedFiles E deltas last file needsProcessing n w) (tempFiles E 1) +
        fileSize (patchedFiles E deltas last file needsProcessing n w) (patchTarget E last) ≤
      (getRequiredSpace E deltas last false).toInt := by
  have lengths := patchSteps_length (E := E) deltas first last needsProcessing
  have nonneg := patchSizes_nonneg (E := E) starts ends sized needsProcessing
  let fetched : Held := ⟨(downloadSizes E deltas last).sum, 0, 0, 0⟩
  let written := (outputs 0 (patchSizes E deltas first last needsProcessing)).take n
  have holds : Holds E last (patchedFiles E deltas last file needsProcessing n w) (fetched.afterAll written) :=
    Holds.relayed lengths (by decide) n ⟨fresh.temp1, fresh.temp2, fresh.result⟩ apart sizes done
  have downloads : (fetched.afterAll written).downloads = (downloadSizes E deltas last).sum :=
    Held.afterAll_writes (fun work member => outputs_write 0 work (List.mem_of_mem_take member)) fetched
  -- These calls have come to a moment of the build.
  have after : fetched.afterAll written =
      Held.nothing.afterAll ((downloadSizes E deltas last).map .download ++ written) := by
    have first := Held.afterAll_downloads (downloadSizes E deltas last) .nothing
    rw [Held.nothing, Int.zero_add] at first
    rw [Held.afterAll, Held.afterAll, List.foldl_append]
    exact congrArg (fun h => written.foldl (fun h work => h.during work work.size) h) first.symm
  have split : buildWork E deltas first last needsProcessing =
      ((downloadSizes E deltas last).map .download ++ written) ++
        (outputs 0 (patchSizes E deltas first last needsProcessing)).drop n := by
    rw [List.append_assoc, List.take_append_drop, buildWork]
  have some : (downloadSizes E deltas last).map Work.download ++ written ≠ [] := by
    intro empty
    have nothing := (List.append_eq_nil_iff.mp empty).2
    obtain ⟨size, sizes, shape⟩ := List.exists_cons_of_ne_nil (patchSizes_ne_nil (E := E) starts last needsProcessing)
    rw [List.take_eq_nil_iff, or_iff_right called, shape] at nothing
    cases sizes <;> cases nothing
  have all : ∀ work ∈ (downloadSizes E deltas last).map Work.download ++ written, 0 ≤ work.size := by
    intro work member
    rcases List.mem_append.mp member with member | member
    · obtain ⟨size, listed, rfl⟩ := List.mem_map.mp member
      exact downloadSizes_nonneg ends sized size listed
    · exact outputs_nonneg nonneg 0 work (List.mem_of_mem_take member)
  have within := covers deltas first last rfl starts ends (fetched.afterAll written)
    (split ▸ after ▸ moment_afterAll all some .nothing)
  rw [Held.total, downloads, ← holds.temp1, ← holds.temp2, ← holds.result] at within
  exact within

end Bytes

/-! ### Three ZIPs at once -/

/-- A delta between two ZIPs of 100 KB, the second of which has a signed form of that size. -/
def evenDelta (input out : String) : DeltaInfo :=
  { sampleDelta with
    input := { sampleDelta.input with name := input ++ ".zip", store := ⟨100000, ""⟩ }
    update := { sampleDelta.update with name := input ++ ".update", applied := ⟨100000, ""⟩ }
    signature := { sampleDelta.signature with name := input ++ ".sign", applied := ⟨100000, ""⟩ }
    out := { sampleDelta.out with name := out ++ ".zip", store := ⟨100000, ""⟩, storeSigned := ⟨100000, ""⟩ } }

/-- Three of them are covered, with `zipadjust` in front and the signature behind: the
blocks of the formula are larger than the ZIPs. -/
theorem covers_even : Covers (signedServer "omni-d.zip").env
    [evenDelta "omni-a" "omni-b", evenDelta "omni-b" "omni-c", evenDelta "omni-c" "omni-d"] true := by
  have sized (input out : String) : (evenDelta input out).Sized :=
    ⟨show 0 ≤ (100000 : Int64).toInt by decide, show 0 ≤ (1 : Int64).toInt by decide,
      show 0 ≤ (100000 : Int64).toInt by decide, show 0 ≤ (9 : Int64).toInt by decide,
      show 0 ≤ (100000 : Int64).toInt by decide⟩
  refine (covers_iff rfl rfl ?_ true).mpr ⟨by decide, fun _ => by decide, by decide⟩
  intro d member
  simp only [List.mem_cons, List.not_mem_nil, or_false] at member
  rcases member with rfl | rfl | rfl
  · exact sized _ _
  · exact sized _ _
  · exact sized _ _

/-- A delta that makes a ZIP of 300 MB. -/
def bulkyDelta : DeltaInfo := { sampleDelta with update := { sampleDelta.update with applied := ⟨300000000, ""⟩ } }

/-- Three of them end with 900 MB, where 601 MB are asked for. -/
theorem covers_not_bulky : ¬ Covers currentServer.env [bulkyDelta, bulkyDelta, bulkyDelta] false := by
  intro covers
  have sized : ∀ d ∈ [bulkyDelta, bulkyDelta, bulkyDelta], d.Sized := by
    intro d member
    have : d = bulkyDelta := by simpa using member
    rw [this]
    exact ⟨by decide, by decide, by decide, by decide, by decide⟩
  have within := (staysWithin_build rfl rfl sized false _).mp (covers _ bulkyDelta bulkyDelta rfl rfl rfl)
  revert within
  decide

end OpenDelta.Service
