/-!
# Blank characters

The characters that separate words: the controls from tab to carriage return, the separators from
file to unit, next line, and the Unicode spaces. All of them are blank in formulas, and all but the
separators around numerals.
-/

namespace FormulaPlot

/-- Whether a character is blank. -/
def isBlank (c : Char) : Bool :=
  let n := c.toNat
  (0x9 ≤ n && n ≤ 0xd) || (0x1c ≤ n && n ≤ 0x20) || n == 0x85 || n == 0xa0 || n == 0x1680 ||
    (0x2000 ≤ n && n ≤ 0x200a) || n == 0x2028 || n == 0x2029 || n == 0x202f || n == 0x205f ||
    n == 0x3000

/-- Whether a character is one of the separators of files, groups, records and units. -/
def isSeparator (c : Char) : Bool := 0x1c ≤ c.toNat && c.toNat ≤ 0x1f

/-- Whether a character may surround a numeral. -/
def isPadding (c : Char) : Bool := isBlank c && !isSeparator c

/-- Text without the padding at its two ends. -/
def trimPadding (t : List Char) : List Char :=
  ((t.dropWhile isPadding).reverse.dropWhile isPadding).reverse

end FormulaPlot
