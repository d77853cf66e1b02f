import Mathlib.Algebra.Group.Nat.Defs
import Mathlib.Algebra.Group.Int.Defs

/-!
# Java strings and file names

The methods of `java.lang.String` and `java.io.File` the update service uses,
on Lean strings. Comparison is by UTF-16 code units, as in Java.
-/

namespace OpenDelta.JavaString

def startsWith (s t : String) : Bool := t.toList.isPrefixOf s.toList

def endsWith (s t : String) : Bool := t.toList.isSuffixOf s.toList

/-- The UTF-16 code units of a character. -/
def codeUnits (c : Char) : List Nat :=
  if c.toNat < 0x10000 then [c.toNat]
  else [0xD800 + (c.toNat - 0x10000) / 0x400, 0xDC00 + (c.toNat - 0x10000) % 0x400]

/-- Lexicographic comparison, a longer string after its own beginning. -/
def unitsAfter : List Nat → List Nat → Bool
  | [], _ => false
  | _ :: _, [] => true
  | x :: xs, y :: ys => if x = y then unitsAfter xs ys else decide (y < x)

/-- `s.compareTo(t) > 0`. -/
def comparesAfter (s t : String) : Bool :=
  unitsAfter (s.toList.flatMap codeUnits) (t.toList.flatMap codeUnits)

/-- `replace` on characters: every occurrence of `target`, from the left. The
length of the text is fuel enough, since every turn passes a character. -/
def replaceChars (target replacement : List Char) : Nat → List Char → List Char
  | 0, cs => cs
  | fuel + 1, cs =>
    match cs with
    | [] => []
    | c :: rest =>
      if target.isPrefixOf (c :: rest) then
        replacement ++ replaceChars target replacement fuel ((c :: rest).drop target.length)
      else c :: replaceChars target replacement fuel rest

def replace (s target replacement : String) : String :=
  String.ofList (replaceChars target.toList replacement.toList s.toList.length s.toList)

/-- The parts between the double spaces of a text; `part` is the part so far,
reversed. -/
def splitDoubleSpace : List Char → List Char → List (List Char)
  | ' ' :: ' ' :: cs, part => part.reverse :: splitDoubleSpace cs []
  | c :: cs, part => splitDoubleSpace cs (c :: part)
  | [], part => [part.reverse]

/-- `s.split("  ")[0]`. Java drops trailing empty parts, and the index fails when
nothing is left; a text without a separator is its own only part. -/
def firstField (s : String) : Option String :=
  match splitDoubleSpace s.toList [] with
  | [] => none
  | [part] => some (String.ofList part)
  | part :: parts =>
    if part = [] ∧ parts.all (· = []) then none else some (String.ofList part)

/-- The parts of a text between the occurrences of a character; `part` is the
part so far, reversed. -/
def splitChar (separator : Char) : List Char → List Char → List (List Char)
  | c :: cs, part =>
    if c = separator then part.reverse :: splitChar separator cs [] else splitChar separator cs (c :: part)
  | [], part => [part.reverse]

/-- `s.split(separator)`, without the empty parts at the end; a text without a
separator is its own only part. -/
def split (s : String) (separator : Char) : List String :=
  match splitChar separator s.toList [] with
  | [part] => [String.ofList part]
  | parts => ((parts.reverse.dropWhile (· = [])).reverse).map String.ofList

/-- `new File(path).getName()`: what follows the last separator, trailing
separators aside. -/
def getName (path : String) : String :=
  String.ofList ((path.toList.reverse.dropWhile (· = '/')).takeWhile (· ≠ '/')).reverse

/-! ## Integers

`Character.digit(c, 10)` is a table of Java's Unicode version, and a parameter
here.
-/

section Integers

variable (digit : Char → Option Nat)

/-- The value of a run of digits after `value`. -/
def digitsValue : List Char → Nat → Option Nat
  | [], value => some value
  | c :: cs, value =>
    match digit c with
    | some d => digitsValue cs (10 * value + d)
    | none => none

/-- A signed number without its sign, at most `bound`. -/
def magnitude (cs : List Char) (bound : Nat) : Option Nat :=
  if cs = [] then none else (digitsValue digit cs 0).filter (· ≤ bound)

/-- `Integer.valueOf(s)`; `none` is a `NumberFormatException`. -/
def integerValueOf (s : String) : Option Int :=
  match s.toList with
  | '-' :: cs => (magnitude digit cs (2 ^ 31)).map fun n => -(n : Int)
  | '+' :: cs => (magnitude digit cs (2 ^ 31 - 1)).map Int.ofNat
  | cs => (magnitude digit cs (2 ^ 31 - 1)).map Int.ofNat

end Integers

end OpenDelta.JavaString
