import FormulaPlot.Formula.Sign

/-!
# Functions and operators

The functions and binary operators of formulas. Both have an order, which is the order in which the
engine resolves them. A name that ends another one comes after it, so that the longer name is found
first.
-/

namespace FormulaPlot

/-- The functions of formulas. -/
inductive Builtin where
  | sqrt | cbrt | exp | log10 | log | asin | acos | atan | sin | cos | tan
deriving DecidableEq, Repr

namespace Builtin

/-- The functions in the order in which they are resolved. -/
def all : List Builtin := [sqrt, cbrt, exp, log10, log, asin, acos, atan, sin, cos, tan]

/-- The name of a function in a formula. -/
def name : Builtin → String
  | sqrt => "sqrt"
  | cbrt => "cbrt"
  | exp => "exp"
  | log10 => "log10"
  | log => "log"
  | asin => "asin"
  | acos => "acos"
  | atan => "atan"
  | sin => "sin"
  | cos => "cos"
  | tan => "tan"

/-- The characters of the name. -/
def symbol (f : Builtin) : Text := f.name.toList

/-- The value of a function. -/
def apply : Builtin → Float → Float
  | sqrt => Float.sqrt
  | cbrt => Float.cbrt
  | exp => Float.exp
  | log10 => Float.log10
  | log => Float.log
  | asin => Float.asin
  | acos => Float.acos
  | atan => Float.atan
  | sin => Float.sin
  | cos => Float.cos
  | tan => Float.tan

/-- The function with a name. -/
def ofName? (name : String) : Option Builtin := all.find? (·.name == name)

end Builtin

/-- The binary operators of formulas. -/
inductive Operator where
  | raise | multiply | divide | add | subtract
deriving DecidableEq, Repr

namespace Operator

/-- The operators in the order in which they are applied. -/
def all : List Operator := [raise, multiply, divide, add, subtract]

/-- The name of an operator. -/
def name : Operator → String
  | raise => "raise"
  | multiply => "multiply"
  | divide => "divide"
  | add => "add"
  | subtract => "subtract"

/-- The symbol of an operator in a formula. -/
def symbol : Operator → Char
  | raise => '^'
  | multiply => '*'
  | divide => '/'
  | add => '+'
  | subtract => binaryMinus

/-- The value of an operator. -/
def apply : Operator → Float → Float → Float
  | raise => Float.pow
  | multiply => Float.mul
  | divide => Float.div
  | add => Float.add
  | subtract => Float.sub

/-- The operator with a name. -/
def ofName? (name : String) : Option Operator := all.find? (·.name == name)

end Operator

end FormulaPlot
