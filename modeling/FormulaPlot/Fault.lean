import FormulaPlot.Formula.Error
import FormulaPlot.Number.Rounding
import FormulaPlot.Value

/-!
# Faults

`InputError` names what is wrong with a request besides its formula, and `MissingValue` what a
request may lack. `Fault` joins all that can keep an operation from an answer: formulas without
value, bad requests, missing values, arithmetic without answer, cells outside a picture and images
of an unknown format.
-/

namespace FormulaPlot

/-- What is wrong with a request besides its formula. -/
inductive InputError where
  /-- The variable is not a single character. It is kept in literal notation. -/
  | invalidVariable (shown : String)
  /-- An interval ends before it starts. -/
  | invalidRange
  /-- No samples are asked for. -/
  | invalidSamples
deriving DecidableEq, Repr

namespace InputError

/-- The words for a bad request. -/
def message : InputError → String
  | invalidVariable shown => "Variable must be a single character, got " ++ shown
  | invalidRange => "The given value range is not valid."
  | invalidSamples => "Number of samples must be positive"

/-- The kinds of bad requests by name. -/
def code : InputError → String
  | invalidVariable _ => "INVALID_VARIABLE"
  | invalidRange => "INVALID_VALUE_RANGE"
  | invalidSamples => "INVALID_SAMPLES"

end InputError

/-- The values of flags that are missed once they are needed. -/
inductive MissingValue where
  /-- The value of the variable. -/
  | point
  /-- The number of samples. -/
  | steps
  /-- The path of an image. -/
  | path
  /-- The level of the log. -/
  | level
deriving DecidableEq, Repr

namespace MissingValue

/-- The words for a missing value. -/
def message : MissingValue → String
  | point => "only size-1 arrays can be converted to Python scalars"
  | steps => "'<=' not supported between instances of 'list' and 'int'"
  | path => "'list' object has no attribute 'write'"
  | level => "'list' object has no attribute 'upper'"

end MissingValue

/-- The formats of images by name, which are the extensions that their paths may have. -/
def imageFormats : List String :=
  ["eps", "jpeg", "jpg", "pdf", "pgf", "png", "ps", "raw", "rgba", "svg", "svgz", "tif", "tiff",
    "webp"]

namespace ArithmeticFault

/-- The words for arithmetic without answer. -/
def message : ArithmeticFault → String
  | roundedNaN => "cannot convert float NaN to integer"
  | roundedInfinity => "cannot convert float infinity to integer"
  | roundedTooLarge => "rounded value too large to represent"
  | wholeTooLarge => "int too large to convert to float"
  | negativePrecision => "Format specifier missing precision"
  | precisionTooBig => "precision too big"
  | precisionTooLong => "Too many decimal digits in format string"

end ArithmeticFault

/-- What keeps an operation from an answer. -/
inductive Fault where
  | malformed (e : EvalError)
  | invalid (e : InputError)
  | arithmetic (e : ArithmeticFault)
  | missing (v : MissingValue)
  /-- The path of an image ends in the name of no format. -/
  | imageFormat (name : String)
  /-- An axis runs through the range but its end is outside it. -/
  | axisOutside
  /-- A picture has no row for a point. -/
  | rowOutside
  /-- A row of a picture has no column for a point. -/
  | columnOutside
deriving DecidableEq, Repr

namespace Fault

/-- The words for a fault. -/
def message : Fault → String
  | malformed e => e.message
  | invalid e => e.message
  | arithmetic e => e.message
  | missing v => v.message
  | imageFormat name =>
    s!"Format {quote name} is not supported (supported formats: " ++
      ", ".intercalate imageFormats ++ ")"
  | axisOutside => "'NoneType' object is not subscriptable"
  | rowOutside => "list index out of range"
  | columnOutside => "list assignment index out of range"

end Fault

end FormulaPlot
