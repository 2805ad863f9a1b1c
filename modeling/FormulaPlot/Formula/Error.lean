import FormulaPlot.Text.Basic

/-!
# Why a formula has no value

`EvalError` names each cause. `message` words it for people and `code` names its kind.
-/

namespace FormulaPlot

/-- The causes that leave a formula without a value. -/
inductive EvalError where
  /-- A function name has no group after it. -/
  | missingGroup
  /-- A group is never closed. -/
  | openGroup
  /-- A number is missing. The text that stands in its place is empty or a lone minus. -/
  | missingOperand (text : Text)
  /-- A text is not a number. -/
  | invalidNumber (text : Text)
  /-- Groups and calls are nested deeper than the limit. -/
  | tooDeep (limit : Int)
  /-- Groups and calls are nested deeper than the engine ever follows. -/
  | pastReach
  /-- The text has more characters than the limit. -/
  | tooLong (limit : Int)
  /-- The whole number for the variable is past the largest double. -/
  | valueTooLarge
deriving DecidableEq, Repr

namespace EvalError

/-- The words for a formula without value. -/
def message : EvalError → String
  | missingGroup => "Expected an opening parenthesis"
  | openGroup => "The parentheses of the expression do not match"
  | missingOperand text => s!"Missing number in '{String.ofList text}'"
  | invalidNumber text => s!"'{String.ofList text}' is not a valid number"
  | tooDeep limit => s!"Expression nesting exceeds {limit} levels"
  | pastReach => "Expression is nested too deeply"
  | tooLong limit => s!"Expression too long (>{limit} characters)"
  | valueTooLarge => "int too large to convert to float"

/-- The kinds of causes by name. -/
def code : EvalError → String
  | missingGroup | openGroup => "UNBALANCED_PARENTHESES"
  | missingOperand _ => "MISSING_OPERAND"
  | invalidNumber _ => "INVALID_NUMBER"
  | tooDeep _ | pastReach => "TOO_DEEP"
  | tooLong _ => "TOO_LONG"
  | valueTooLarge => "MALFORMED_EXPRESSION"

end EvalError

end FormulaPlot
