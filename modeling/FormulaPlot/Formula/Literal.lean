import FormulaPlot.Formula.Error
import FormulaPlot.Number.Decimal
import FormulaPlot.Text.DecimalDigit

/-!
# Number literals

The literals of formulas: `nan`, `inf` and `-inf`, and decimal numbers with an optional minus, an
optional point with digits on at least one side of it, and an optional exponent. Digits of every
script count. One line end after the literal is passed over.

`Literal.parse?` accepts exactly these and `readNumber` gives the nearest double or says why there
is none.
-/

namespace FormulaPlot

open DecimalDigit

/-- A number as it is written. -/
inductive Literal where
  | nan
  | infinity (negative : Bool)
  | decimal (negative : Bool) (number : Decimal)
deriving DecidableEq, Repr

namespace Literal

/-- The values of the digits at the start of a text, and the rest. -/
def digitRun (t : Text) : List Nat × Text :=
  ((t.takeWhile isDecimal).filterMap digitValue?, t.dropWhile isDecimal)

/-- The number that digits write. -/
def ofDigits (digits : List Nat) : Nat := digits.foldl (fun n d => 10 * n + d) 0

/-- A minus at the start of a text, and the rest. -/
def minus : Text → Bool × Text
  | [] => (false, [])
  | c :: t => if c = '-' then (true, t) else (false, c :: t)

/-- The digits before and after the point, of which one side may be empty, and the rest. -/
def mantissa? (t : Text) : Option (List Nat × List Nat × Text) :=
  let (whole, rest) := digitRun t
  match rest with
  | c :: t =>
    if c = '.' then
      let (fraction, rest) := digitRun t
      if whole = [] ∧ fraction = [] then none else some (whole, fraction, rest)
    else if whole = [] then none
    else some (whole, [], rest)
  | [] => if whole = [] then none else some (whole, [], rest)

/-- An exponent that is all of a text. Nothing at all stands for zero. -/
def exponent? : Text → Option Int
  | [] => some 0
  | c :: t =>
    if c = 'e' ∨ c = 'E' then
      let (negative, t) :=
        match t with
        | [] => (false, [])
        | s :: t => if s = '-' then (true, t) else if s = '+' then (false, t) else (false, s :: t)
      match digitRun t with
      | (d :: digits, []) =>
        let n := ofDigits (d :: digits)
        some (if negative then -n else n)
      | _ => none
    else none

/-- A decimal number in full. -/
def parseDecimal? (t : Text) : Option Literal :=
  let (negative, t) := minus t
  match mantissa? t with
  | none => none
  | some (whole, fraction, rest) =>
    (exponent? rest).map fun e =>
      .decimal negative ⟨ofDigits (whole ++ fraction), e - fraction.length⟩

/-- A text without one line end at its end. -/
def dropLineEnd (t : Text) : Text := if t.getLast? = some '\n' then t.dropLast else t

/-- The literal that a text writes. -/
def parse? (t : Text) : Option Literal :=
  let t := dropLineEnd t
  if t = ['n', 'a', 'n'] then some .nan
  else if t = ['i', 'n', 'f'] then some (.infinity false)
  else if t = ['-', 'i', 'n', 'f'] then some (.infinity true)
  else parseDecimal? t

/-- The double nearest to a literal. -/
def toFloat : Literal → Float
  | nan => Shape.nan.toFloat
  | infinity negative => (Shape.infinite negative).toFloat
  | decimal negative d => d.toFloat negative

end Literal

/-- The value of a text that must be one number. -/
def readNumber (t : Text) : Except EvalError Float :=
  match Literal.parse? t with
  | some l => .ok l.toFloat
  | none =>
    if t = [] ∨ t = ['-'] then .error (.missingOperand t) else .error (.invalidNumber t)

end FormulaPlot
