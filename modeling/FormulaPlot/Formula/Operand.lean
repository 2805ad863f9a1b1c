import FormulaPlot.Formula.Sign

/-!
# Operands

The operands of an operator are the longest runs of digits, points and minuses that touch it.
-/

namespace FormulaPlot

/-- The characters of operands. -/
def isOperandChar (c : Char) : Bool := isAsciiDigit c || c = '.' || c = '-'

/-- The operand at the end of a text. -/
def operandBefore (t : Text) : Text := (t.reverse.takeWhile isOperandChar).reverse

/-- The text before the operand at its end. -/
def beforeOperand (t : Text) : Text := (t.reverse.dropWhile isOperandChar).reverse

/-- The operand at the start of a text. -/
def operandAfter (t : Text) : Text := t.takeWhile isOperandChar

/-- The text after the operand at its start. -/
def afterOperand (t : Text) : Text := t.dropWhile isOperandChar

/-- The operand at the end of a text and what is before it make up the text. -/
theorem beforeOperand_append_operandBefore (t : Text) :
    beforeOperand t ++ operandBefore t = t := by
  rw [beforeOperand, operandBefore, ← List.reverse_append, List.takeWhile_append_dropWhile,
    List.reverse_reverse]

/-- The operand at the start of a text and what is after it make up the text. -/
theorem operandAfter_append_afterOperand (t : Text) : operandAfter t ++ afterOperand t = t :=
  List.takeWhile_append_dropWhile

end FormulaPlot
