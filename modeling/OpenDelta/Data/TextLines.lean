/-!
# Lines of a text

A text written line by line, and the lines a reader finds in it.
-/

namespace OpenDelta.TextLines

/-- The lines of what is left, after the beginning of a line, reversed. -/
def splitLines : List Char → List Char → List String
  | [], part => if part = [] then [] else [String.ofList part.reverse]
  | c :: cs, part => if c = '\n' then String.ofList part.reverse :: splitLines cs [] else splitLines cs (c :: part)

/-- The lines of a text. What follows the last line break is one unless it is empty. -/
def lines (text : String) : List String := splitLines text.toList []

/-- Lines with a line break after each. -/
def unlines : List String → String
  | [] => ""
  | s :: rest => s ++ "\n" ++ unlines rest

/-- A line break ends the line that has begun. -/
theorem splitLines_line (s rest part : List Char) (plain : '\n' ∉ s) :
    splitLines (s ++ '\n' :: rest) part = String.ofList (part.reverse ++ s) :: splitLines rest [] := by
  induction s generalizing part with
  | nil => simp [splitLines]
  | cons c s ih =>
    have other : c ≠ '\n' := fun same => plain (same ▸ List.mem_cons_self ..)
    rw [List.cons_append, splitLines, if_neg other, ih _ fun member => plain (List.mem_cons_of_mem _ member)]
    simp

/-- **Lines without line breaks are read back.** -/
theorem lines_unlines {ls : List String} (plain : ∀ s ∈ ls, '\n' ∉ s.toList) : lines (unlines ls) = ls := by
  induction ls with
  | nil => rfl
  | cons s rest ih =>
    have chars : (unlines (s :: rest)).toList = s.toList ++ '\n' :: (unlines rest).toList := by
      simp [unlines]
    rw [lines, chars, splitLines_line _ _ _ (plain s (List.mem_cons_self ..))]
    have rest' := ih fun s member => plain s (List.mem_cons_of_mem _ member)
    rw [lines] at rest'
    rw [rest', List.reverse_nil, List.nil_append, String.ofList_toList]

end OpenDelta.TextLines
