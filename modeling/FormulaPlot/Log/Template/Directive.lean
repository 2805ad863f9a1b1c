import FormulaPlot.Log.Template.Fault
import FormulaPlot.Number.Layout
import FormulaPlot.Text.Basic
import FormulaPlot.Value

/-!
# Directives of templates

A directive says how an argument is written: `s`, `r` and `a` write any value, `d`, `i` and `u`
whole numbers, `o`, `x` and `X` their octal and hexadecimal digits, `e`, `f` and `g` doubles and `c`
a character. `Template.convert` writes an argument by the letter, the flags, the width and the
precision of its directive.
-/

namespace FormulaPlot

namespace Template

/-- How a directive writes its argument. -/
structure Directive where
  left : Bool := false
  plus : Bool := false
  space : Bool := false
  alternate : Bool := false
  zero : Bool := false
  width : Nat := 0
  precision : Option Nat := none

/-- The name of a kind of value. -/
def kind : Value → String
  | .null => "NoneType"
  | .bool _ => "bool"
  | .int _ => "int"
  | .real _ => "float"
  | .text _ => "str"
  | .list _ => "list"
  | .record _ => "dict"

/-- A text filled with blanks to the width of a directive. -/
def fill (d : Directive) (t : Text) : Text :=
  let blanks := List.replicate (d.width - t.length) ' '
  if d.left then t ++ blanks else blanks ++ t

/-- A number with its sign and what precedes its digits, filled with zeros or blanks. -/
def number (d : Directive) (negative : Bool) (mark digits : Text) : Text :=
  let sign := if negative then ['-'] else if d.plus then ['+'] else if d.space then [' '] else []
  let front := sign ++ mark
  -- Zeros go between the sign and the digits, and only where blanks would go to the left.
  if d.zero && !d.left then
    front ++ List.replicate (d.width - front.length - digits.length) '0' ++ digits
  else fill d (front ++ digits)

/-- A whole number in a base. -/
def whole (d : Directive) (letter : Char) (n : Int) : Text :=
  let base := if letter = 'o' then 8 else if letter = 'x' ∨ letter = 'X' then 16 else 10
  let mark := if d.alternate && base != 10 then ['0', letter] else []
  let digits := Nat.toDigits base n.natAbs
  let digits := List.replicate (d.precision.getD 0 - digits.length) '0' ++ digits
  number d (n < 0) mark (if letter = 'X' then digits.map Char.toUpper else digits)

/-- Exactly as many digits as asked for, and the power of ten of the first. -/
def significantDigits (count bits : Nat) : Text × Int :=
  if bits = 0 then (List.replicate count '0', 0)
  else
    let e := Decimal.integerDigits bits - count
    let (n, m) := Decimal.steps bits e
    let digits := Nat.toDigits 10 (roundDiv n m)
    (digits.take count, e + digits.length - 1)

/-- A text without the zeros at its end. -/
def dropZeros (t : Text) : Text := (t.reverse.dropWhile (· = '0')).reverse

/-- A point and digits, or nothing where there are no digits and no point is asked for. -/
def fraction (point : Bool) (digits : Text) : Text :=
  if digits.isEmpty && !point then [] else '.' :: digits

/-- Digits with an exponent. -/
def scientific (point : Bool) (digits : Text) (e : Int) : Text :=
  digits.take 1 ++ fraction point (digits.drop 1) ++ 'e' :: Layout.writeExponent e

/-- A magnitude with a number of significant digits, in whichever notation fits it. -/
def general (d : Directive) (count bits : Nat) : Text :=
  let (digits, e) := significantDigits count bits
  let trim (t : Text) := if d.alternate then t else dropZeros t
  if -4 ≤ e ∧ e < count then
    if 0 ≤ e then
      digits.take (e.toNat + 1) ++ fraction d.alternate (trim (digits.drop (e.toNat + 1)))
    else '0' :: '.' :: List.replicate (-e - 1).toNat '0' ++ trim digits
  else scientific d.alternate (digits.take 1 ++ trim (digits.drop 1)) e

/-- A magnitude as a directive with this letter writes it. -/
def magnitude (d : Directive) (letter : Char) (bits : Nat) : Text :=
  let count := d.precision.getD 6
  match letter.toLower with
  | 'f' =>
    let digits := Layout.writePositional false (Decimal.fixed count bits)
    if count = 0 && d.alternate then digits ++ ['.'] else digits
  | 'e' =>
    let (digits, e) := significantDigits (count + 1) bits
    scientific d.alternate digits e
  | _ => general d (max count 1) bits

/-- A double as a directive with this letter writes it. -/
def double (d : Directive) (letter : Char) (x : Float) : Text :=
  let case (t : Text) := if letter.isUpper then t.map Char.toUpper else t
  match Shape.ofFloat x with
  | .nan => number d false [] (case ['n', 'a', 'n'])
  | .infinite negative => number d negative [] (case ['i', 'n', 'f'])
  | .finite negative bits => number d negative [] (case (magnitude d letter bits))

/-- A text as a directive writes it, cut to the precision. -/
def cut (d : Directive) (t : Text) : Text :=
  fill d (match d.precision with | some n => t.take n | none => t)

/-- The whole number that a value stands for, cut toward zero if `cutting` is set. -/
def toWhole (cutting : Bool) (letter : Char) : Value → Except TemplateFault Int
  | .int n => .ok n
  | .bool b => .ok (if b then 1 else 0)
  | .real x =>
    if cutting then (truncateToInt x).mapError .arithmetic else .error (.notWhole letter "float")
  | v => if cutting then .error (.notReal letter (kind v)) else .error (.notWhole letter (kind v))

/-- The double that a value stands for. -/
def toDouble : Value → Except TemplateFault Float
  | .real x => .ok x
  | .int n => (floatOfInt n).mapError .arithmetic
  | .bool b => .ok (if b then 1 else 0)
  | v => .error (.notDouble (kind v))

/-- The character that a value stands for. -/
def toCharacter : Value → Except TemplateFault Char
  | .text s =>
    match s.toList with
    | [c] => .ok c
    | _ => .error .notCharacter
  | .int n => if 0 ≤ n ∧ n < 0x110000 then .ok (Char.ofNat n.toNat) else .error .noSuchCharacter
  | .bool b => .ok (Char.ofNat (if b then 1 else 0))
  | _ => .error .notCharacter

/-- A value as a directive writes it, its letter standing at a position. -/
def convert (d : Directive) (letter : Char) (position : Nat) (v : Value) :
    Except TemplateFault Text :=
  if letter = 's' then .ok (cut d v.plain.toList)
  else if letter = 'r' then .ok (cut d v.literal.toList)
  else if letter = 'a' then
    .ok (cut d (v.literal.toList.flatMap fun c =>
      if c.toNat < 0x80 then [c] else Quoted.escapeCode c))
  else if ['d', 'i', 'u'].contains letter then (toWhole true letter v).map (whole d letter)
  else if ['o', 'x', 'X'].contains letter then (toWhole false letter v).map (whole d letter)
  else if ['e', 'E', 'f', 'F', 'g', 'G'].contains letter then (toDouble v).map (double d letter)
  else if letter = 'c' then (toCharacter v).map fun c => cut { d with precision := none } [c]
  else .error (.unknownLetter letter position)

end Template

end FormulaPlot
