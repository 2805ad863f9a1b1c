import FormulaPlot.Text.Basic

/-!
# Signs

A plus or minus in a text may be an operator or the sign of a number. `dropUnaryPlus` removes every
plus that is no operator, `markBinaryMinus` gives every minus between two digits the symbol of
subtraction, and `cancelMinusPairs` removes the minuses that meet once all else is computed.
-/

namespace FormulaPlot

/-- The symbol of subtraction. A hyphen is always the sign of a number. -/
def binaryMinus : Char := '\u2212'

/-- The digits of formulas. -/
def isAsciiDigit (c : Char) : Bool := '0' ≤ c && c ≤ '9'

/-- The characters after which a plus adds: those at which an operand can end. -/
def endsOperand (c : Char) : Bool := isAsciiDigit c || c = '.' || c = ')'

/-- Removes unary pluses from a text that follows `previous`. -/
def dropUnaryPlusAfter (previous : Option Char) : Text → Text
  | [] => []
  | c :: t =>
    if c = '+' ∧ (t = [] ∨ previous.any endsOperand = false) then dropUnaryPlusAfter (some c) t
    else c :: dropUnaryPlusAfter (some c) t

/-- Removes every plus that is first or last or does not follow the end of an operand. -/
def dropUnaryPlus (t : Text) : Text := dropUnaryPlusAfter none t

/-- Marks subtraction in a text that follows `previous`. -/
def markBinaryMinusAfter (previous : Option Char) : Text → Text
  | [] => []
  | c :: t =>
    if c = '-' then
      match t with
      -- A minus at the end has nothing to subtract or to negate.
      | [] => []
      | next :: _ =>
        (if previous.any isAsciiDigit && isAsciiDigit next then binaryMinus else c) ::
          markBinaryMinusAfter (some c) t
    else c :: markBinaryMinusAfter (some c) t

/-- Gives every minus between two digits the symbol of subtraction, and drops one at the end. -/
def markBinaryMinus (t : Text) : Text := markBinaryMinusAfter none t

/-- Removes the pairs of minuses, the first ones first. -/
def cancelMinusPairs : Text → Text
  | [] => []
  | [c] => [c]
  | a :: b :: t =>
    if a = '-' ∧ b = '-' then cancelMinusPairs t else a :: cancelMinusPairs (b :: t)

end FormulaPlot
