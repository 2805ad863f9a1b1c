import FormulaPlot.Number.Decimal
import FormulaPlot.Text.Blank
import FormulaPlot.Text.DecimalDigit
import FormulaPlot.Text.Quoted

/-!
# Numerals that people type

Command lines and environment variables spell numbers more freely than formulas do: blanks around
them, a sign of either kind, single underscores between digits, and digits of any script.
`Numeral.integer?` reads whole numbers and `Numeral.float?` doubles.
-/

namespace FormulaPlot

/-- Why a text is no whole number. -/
inductive NumeralFault where
  /-- The text is not a numeral. -/
  | malformed (text : String)
  /-- The text has more digits than are read. -/
  | tooManyDigits (count : Nat)
deriving DecidableEq, Repr

namespace NumeralFault

/-- The most digits that a whole number may have. -/
def digitLimit : Nat := 4300

/-- The words for a text that is no whole number. The text is cut to 200 characters. -/
def message : NumeralFault → String
  | malformed text =>
    "invalid literal for int() with base 10: " ++ String.ofList ((quote text).toList.take 200)
  | tooManyDigits count =>
    s!"Exceeds the limit ({digitLimit} digits) for integer string conversion: " ++
      s!"value has {count} digits; use sys.set_int_max_str_digits() to increase the limit"

end NumeralFault

namespace Numeral

open DecimalDigit

/-- The number that digits write. -/
def ofDigits (digits : List Nat) : Nat := digits.foldl (fun n d => 10 * n + d) 0

/-- The digits at the start of a text and the rest. An underscore is passed over between two digits,
`afterDigit` saying whether a digit stands right before the text. -/
def digitRunFrom (afterDigit : Bool) : List Char → List Nat × List Char
  | [] => ([], [])
  | c :: rest =>
    match digitValue? c with
    | some d =>
      let (digits, rest) := digitRunFrom true rest
      (d :: digits, rest)
    | none =>
      if c = '_' ∧ afterDigit = true ∧ rest.head?.any isDecimal = true then
        -- A second underscore has no digit before it and ends the run.
        digitRunFrom false rest
      else ([], c :: rest)

/-- The digits at the start of a text with single underscores between them, and the rest. -/
def digitRun (t : List Char) : List Nat × List Char := digitRunFrom false t

/-- A sign at the start of a text, and the rest. -/
def sign : List Char → Bool × List Char
  | '-' :: rest => (true, rest)
  | '+' :: rest => (false, rest)
  | t => (false, t)

/-- A whole number. -/
def integer? (text : String) : Except NumeralFault Int :=
  let (negative, t) := sign (trimPadding text.toList)
  match digitRun t with
  | (d :: digits, []) =>
    if NumeralFault.digitLimit < (d :: digits).length then
      .error (.tooManyDigits (d :: digits).length)
    else
      let n := ofDigits (d :: digits)
      .ok (if negative then -n else n)
  | _ => .error (.malformed text)

/-- An exponent at the start of a text, if there is one, and the rest. -/
def exponent? (t : List Char) : Int × List Char :=
  match t with
  | c :: rest =>
    if c = 'e' ∨ c = 'E' then
      let (negative, rest) := sign rest
      match digitRun rest with
      | (d :: digits, rest) =>
        let n := ofDigits (d :: digits)
        (if negative then -n else n, rest)
      | ([], _) => (0, t)
    else (0, t)
  | [] => (0, t)

/-- A decimal number in full. -/
def decimal? (t : List Char) : Option Decimal :=
  let (whole, rest) := digitRun t
  let (fraction, rest) :=
    match rest with
    | '.' :: rest => digitRun rest
    | _ => ([], rest)
  let (e, rest) := exponent? rest
  if rest.isEmpty && !(whole.isEmpty && fraction.isEmpty) then
    some ⟨ofDigits (whole ++ fraction), e - fraction.length⟩
  else none

/-- A double: a decimal number, or infinity or NaN by name in letters of either case. -/
def float? (text : String) : Option Float :=
  let (negative, t) := sign (trimPadding text.toList)
  let word := String.ofList (t.map Char.toLower)
  if word = "inf" ∨ word = "infinity" then some (Shape.infinite negative).toFloat
  else if word = "nan" then some Shape.nan.toFloat
  else (decimal? t).map (·.toFloat negative)

end Numeral

end FormulaPlot
