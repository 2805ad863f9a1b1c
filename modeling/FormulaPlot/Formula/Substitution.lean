import FormulaPlot.Formula.Error
import FormulaPlot.Number.Layout
import FormulaPlot.Number.Rounding
import FormulaPlot.Text.Blank

/-!
# A value for the variable

Before a formula is reduced its blanks are removed (`normalize`) and its variable gives way to a
number (`substitute`). An occurrence of the variable next to a letter is part of a name, as the `x`
in `exp` is, and stays.
-/

namespace FormulaPlot

/-- A number for the variable: a double or a whole number of any size. -/
inductive Quantity where
  | real (x : Float)
  | whole (n : Int)

/-- The double that a quantity stands for. -/
def Quantity.toFloat : Quantity → Except EvalError Float
  | real x => .ok x
  | whole n => (floatOfInt n).mapError fun _ => .valueTooLarge

/-- The letters of names. -/
def isAsciiLetter (c : Char) : Bool := ('a' ≤ c && c ≤ 'z') || ('A' ≤ c && c ≤ 'Z')

/-- Replaces the variable in a text that follows `previous`. -/
def substituteAfter (previous : Option Char) (unknown : Char) (value : Text) : Text → Text
  | [] => []
  | c :: t =>
    (if c = unknown ∧ previous.any isAsciiLetter = false ∧ t.head?.any isAsciiLetter = false
      then value else [c]) ++ substituteAfter (some c) unknown value t

/-- Replaces each occurrence of the variable that has no letter next to it. -/
def substitute (t : Text) (unknown : Char) (value : Text) : Text :=
  substituteAfter none unknown value t

/-- A text without its blanks, if it is not longer than the limit with them. -/
def normalize (limit : Int) (t : Text) : Except EvalError Text :=
  if limit < t.length then .error (.tooLong limit) else .ok (t.filter fun c => !isBlank c)

end FormulaPlot
