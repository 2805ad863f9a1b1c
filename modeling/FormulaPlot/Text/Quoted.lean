import FormulaPlot.Text.Printable

/-!
# Quoted text

`quoted` writes a text so that its ends and its invisible characters can be seen: between single
quotes, or double quotes when it holds a single quote and no double one. Backslashes, the quote in
use, line ends and tabs are escaped by a letter, other characters that are not printable by their
code in two, four or eight hexadecimal digits.
-/

namespace FormulaPlot.Quoted

open Printable

/-- The lower case hexadecimal digits of a number, filled with zeros to a width. -/
def hexDigits (width n : Nat) : List Char :=
  let digits := Nat.toDigits 16 n
  List.replicate (width - digits.length) '0' ++ digits

/-- The code of a character that is not printable. -/
def escapeCode (c : Char) : List Char :=
  if c.toNat < 0x100 then '\\' :: 'x' :: hexDigits 2 c.toNat
  else if c.toNat < 0x10000 then '\\' :: 'u' :: hexDigits 4 c.toNat
  else '\\' :: 'U' :: hexDigits 8 c.toNat

/-- One character between the given quotes. -/
def escape (quote c : Char) : List Char :=
  if c = quote ∨ c = '\\' then ['\\', c]
  else if c = '\n' then ['\\', 'n']
  else if c = '\r' then ['\\', 'r']
  else if c = '\t' then ['\\', 't']
  else if isPrintable c then [c]
  else escapeCode c

/-- The quotes around a text: double ones only where that avoids an escape. -/
def quoteFor (t : List Char) : Char :=
  if '\x27' ∈ t ∧ '\x22' ∉ t then '\x22' else '\x27'

/-- A text between quotes. -/
def quoted (t : List Char) : List Char :=
  let quote := quoteFor t
  quote :: t.flatMap (escape quote) ++ [quote]

end FormulaPlot.Quoted

namespace FormulaPlot

/-- A text between quotes. -/
def quote (s : String) : String := String.ofList (Quoted.quoted s.toList)

end FormulaPlot
