import Mathlib.Data.Prod.Lex
import OpenDelta.Data.TextOrder
import OpenDelta.Service.Documents

/-!
# Newer by name

The planner takes a build for newer when its file name compares after that of the
current version. The names hold a version, number by number, and a date; they
compare as texts, digit by digit.
-/

namespace OpenDelta.Service
open JavaString TextOrder

/-- `compareTo` follows the order of the code units. -/
theorem unitsAfter_iff (xs ys : List Nat) : unitsAfter xs ys = true ↔ ys < xs := by
  induction xs generalizing ys with
  | nil => simp [unitsAfter]
  | cons x xs ih =>
    cases ys with
    | nil => simp [unitsAfter]
    | cons y ys =>
      rw [unitsAfter, List.cons_lt_cons_iff]
      split
      · rename_i same
        simp [same, ih]
      · rename_i different
        simp [Ne.symm different]

/-- A number as a name writes it. -/
@[ext] structure Numeral where
  digits : List (Fin 10)
  written : digits ≠ []
  deriving DecidableEq

/-- The code unit of a digit. -/
def digitUnit (d : Fin 10) : Nat := 48 + d.val

theorem digitUnit_lt_iff (a b : Fin 10) : digitUnit a < digitUnit b ↔ a < b := by
  rw [digitUnit, digitUnit, Nat.add_lt_add_iff_left, Fin.lt_def]

theorem digitUnit_inj (a b : Fin 10) : digitUnit a = digitUnit b ↔ a = b := by
  rw [digitUnit, digitUnit, Nat.add_left_cancel_iff, Fin.val_inj]

namespace Numeral

def value (c : Numeral) : Nat := TextOrder.value c.digits

def chars (c : Numeral) : List Char := c.digits.map fun d : Fin 10 => Nat.digitChar d

def units (c : Numeral) : List Nat := c.digits.map digitUnit

theorem chars_units (c : Numeral) : c.chars.flatMap codeUnits = c.units := by
  have digit : ∀ d : Fin 10, codeUnits (Nat.digitChar d) = [digitUnit d] := by decide
  simp only [chars, units, List.flatMap_map, digit, ← List.map_eq_flatMap]

/-- A digit comes after '-' and '.'. -/
theorem units_above (c : Numeral) : ∀ x ∈ c.units, 46 < x := by
  intro x within
  obtain ⟨d, -, rfl⟩ := List.mem_map.mp within
  exact Nat.lt_add_right _ (by decide)

end Numeral

/-- A build's name: `omni-<version>-<date>-<device>-<type>`. -/
structure BuildName where
  version : List Numeral
  numbered : version ≠ []
  date : Numeral
  dated : date.digits.length = 8
  device : String
  type : String

namespace BuildName

/-- The system property of the version. -/
def property (n : BuildName) : String :=
  String.ofList (joined '.' (n.version.map Numeral.chars)) ++ "-" ++ String.ofList n.date.chars ++ "-" ++ n.device ++
    "-" ++ n.type

/-- The resource `filename_base`, expanded. -/
def filenameBase (n : BuildName) : String := "omni-" ++ n.property

def zip (n : BuildName) : String := n.filenameBase ++ ".zip"

/-- The numbers of the version, then the date. -/
def rank (n : BuildName) : List Nat ×ₗ Nat := toLex (n.version.map Numeral.value, n.date.value)

def digits (n : BuildName) : List (List (Fin 10)) := n.version.map Numeral.digits

/-- The code units of a file name; the end is that of every build for the device
and type. -/
theorem zip_units (n : BuildName) : n.zip.toList.flatMap codeUnits =
    "omni-".toList.flatMap codeUnits ++ (joined 46 (n.version.map Numeral.units) ++ 45 :: (n.date.units ++
      ("-" ++ n.device ++ "-" ++ n.type ++ ".zip").toList.flatMap codeUnits)) := by
  have dot : codeUnits '.' = [46] := rfl
  have dash : "-".toList.flatMap codeUnits = [45] := rfl
  simp only [zip, filenameBase, property, String.toList_append, String.toList_ofList, List.flatMap_append,
    flatMap_joined dot, dash, List.map_map, Function.comp_def, Numeral.chars_units, List.append_assoc,
    List.cons_append, List.nil_append]

variable {latest current : BuildName}

/-- File names compare by the digits of the versions, then by the dates. -/
theorem zip_after_iff (device : latest.device = current.device) (type : latest.type = current.type) :
    comparesAfter latest.zip current.zip = true ↔
      current.digits < latest.digits ∨ current.digits = latest.digits ∧ current.date.value < latest.date.value := by
  have tails : ("-" ++ latest.device ++ "-" ++ latest.type ++ ".zip").toList.flatMap codeUnits =
      ("-" ++ current.device ++ "-" ++ current.type ++ ".zip").toList.flatMap codeUnits := by
    rw [device, type]
  have sameLength : current.date.digits.length = latest.date.digits.length := current.dated.trans latest.dated.symm
  have dates : current.date.units.length = latest.date.units.length := by
    rw [Numeral.units, Numeral.units, List.length_map, List.length_map, sameLength]
  have versions : ∀ n : BuildName, n.version.map Numeral.units = n.digits.map (List.map digitUnit) := by
    intro n
    rw [digits, List.map_map]
    rfl
  have above : ∀ n : BuildName, ∀ c ∈ n.version.map Numeral.units, ∀ x ∈ c, 46 < x := by
    intro n c within
    obtain ⟨d, -, rfl⟩ := List.mem_map.mp within
    exact d.units_above
  have some_units : ∀ n : BuildName, n.version.map Numeral.units ≠ [] := by
    intro n none
    exact n.numbered (List.map_eq_nil_iff.mp none)
  rw [comparesAfter, unitsAfter_iff, zip_units, zip_units, append_lt_append_iff, joined_lt_iff (by decide)
    (some_units current) (some_units latest) _ _ (above current) (above latest), tails, append_right_lt_iff dates,
    versions, versions, map_lt_map_iff (map_lt_map_iff digitUnit_lt_iff digitUnit_inj) (map_eq_map_iff digitUnit_inj),
    map_eq_map_iff (map_eq_map_iff digitUnit_inj), Numeral.units, Numeral.units,
    map_lt_map_iff digitUnit_lt_iff digitUnit_inj, lt_iff_value_lt sameLength]
  rfl

/-- Where two versions first differ as texts, the texts are ordered as the builds
are: as the two numbers, or, where these are equal, as what follows. -/
def ReadsAsNumbers (dateEarlier : Prop) : List Numeral → List Numeral → Prop
  | d :: ds, c :: cs =>
    if d = c then ReadsAsNumbers dateEarlier ds cs
    else d.digits < c.digits ↔ d.value < c.value ∨ d.value = c.value ∧
      (ds.map Numeral.value < cs.map Numeral.value ∨ ds.map Numeral.value = cs.map Numeral.value ∧ dateEarlier)
  | _, _ => True

theorem readsAsNumbers_iff (dateEarlier : Prop) (v w : List Numeral) :
    ((v.map Numeral.digits < w.map Numeral.digits ∨ v.map Numeral.digits = w.map Numeral.digits ∧ dateEarlier) ↔
      (v.map Numeral.value < w.map Numeral.value ∨ v.map Numeral.value = w.map Numeral.value ∧ dateEarlier)) ↔
    ReadsAsNumbers dateEarlier v w := by
  induction v generalizing w with
  | nil => cases w <;> simp [ReadsAsNumbers]
  | cons d ds ih =>
    cases w with
    | nil => simp [ReadsAsNumbers]
    | cons c cs =>
      by_cases same : d = c
      · subst same
        simpa only [ReadsAsNumbers, List.map_cons, List.cons_lt_cons_iff, List.cons.injEq, lt_irrefl, false_or, true_and,
          if_true] using ih cs
      · have digits : d.digits ≠ c.digits := fun equal => same (Numeral.ext equal)
        simp only [ReadsAsNumbers, if_neg same, List.map_cons, List.cons_lt_cons_iff, List.cons.injEq, digits, false_and,
          or_false, and_assoc, or_assoc, ← and_or_left]

/-- So do versions whose numbers have equally many digits. -/
theorem readsAsNumbers_of_lengths (dateEarlier : Prop) {v w : List Numeral}
    (lengths : v.map (·.digits.length) = w.map (·.digits.length)) : ReadsAsNumbers dateEarlier v w := by
  induction v generalizing w with
  | nil => simp [ReadsAsNumbers]
  | cons d ds ih =>
    cases w with
    | nil => simp [ReadsAsNumbers]
    | cons c cs =>
      obtain ⟨here, later⟩ := List.cons.inj lengths
      rw [ReadsAsNumbers]
      split
      · exact ih later
      · rename_i different
        have values : d.value ≠ c.value := fun equal => different (Numeral.ext ((eq_iff_value_eq here).mpr equal))
        simp only [values, false_and, or_false]
        exact lt_iff_value_lt here

variable {E : Env}

/-- **The planner's test finds the newer build exactly if the first numbers that
differ as texts compare as texts as they do as numbers.** -/
theorem isNewer_iff (installed : E.config.filenameBase = current.filenameBase) (device : latest.device = current.device)
    (type : latest.type = current.type) :
    (isNewer E latest.zip = true ↔ current.rank < latest.rank) ↔
      ReadsAsNumbers (current.date.value < latest.date.value) current.version latest.version := by
  have test : isNewer E latest.zip = comparesAfter latest.zip current.zip := by
    rw [isNewer, installed]
    rfl
  rw [test, zip_after_iff device type, rank, rank, Prod.Lex.toLex_lt_toLex]
  exact readsAsNumbers_iff _ _ _

/-- A server for a phone with this build. -/
def serverFor (n : BuildName) : Published :=
  { currentServer with config := { sampleConfig with filenameBase := n.filenameBase } }

/-- `omni-5.<minor>-201509<day>-find7-NIGHTLY`. -/
def nightly (minor : Numeral) (day : Fin 10 × Fin 10) : BuildName where
  version := [⟨[5], by decide⟩, minor]
  numbered := List.cons_ne_nil _ _
  date := ⟨[2, 0, 1, 5, 0, 9, day.1, day.2], List.cons_ne_nil _ _⟩
  dated := rfl
  device := "find7"
  type := "NIGHTLY"

def firstNightly : BuildName := nightly ⟨[1], by decide⟩ (0, 2)

def secondNightly : BuildName := nightly ⟨[1], by decide⟩ (1, 5)

/-- `omni-5.1-20150915-find7-NIGHTLY` after `omni-5.1-20150902-find7-NIGHTLY`. -/
theorem isNewer_second : isNewer (serverFor firstNightly).env secondNightly.zip = true ↔
    firstNightly.rank < secondNightly.rank :=
  (@isNewer_iff secondNightly firstNightly (serverFor firstNightly).env rfl rfl rfl).mpr (readsAsNumbers_of_lengths _ rfl)

def ninth : BuildName := nightly ⟨[9], by decide⟩ (0, 2)

def tenth : BuildName := nightly ⟨[1, 0], by decide⟩ (1, 5)

/-- 5.10 is newer than 5.9, but "5.10" comes before "5.9". -/
theorem isNewer_tenth :
    ¬ (isNewer (serverFor ninth).env tenth.zip = true ↔ ninth.rank < tenth.rank) := by
  have texts := @zip_after_iff tenth ninth rfl rfl
  rw [show isNewer (serverFor ninth).env tenth.zip = comparesAfter tenth.zip ninth.zip from rfl, texts]
  decide

end BuildName

end OpenDelta.Service
