import FormulaPlot.Number.Rounding
import FormulaPlot.Text.Quoted

/-!
# Why a template has no text

`TemplateFault` names what can be wrong with the template of a message or with its arguments, and
`TemplateFault.message` words it.
-/

namespace FormulaPlot

/-- What is wrong with a template or its arguments. -/
inductive TemplateFault where
  /-- A number is missing, which the directive needs. -/
  | notReal (letter : Char) (kind : String)
  /-- A whole number is missing, which the directive needs. -/
  | notWhole (letter : Char) (kind : String)
  /-- A double is missing, which the directive needs. -/
  | notDouble (kind : String)
  /-- A character is missing, which the directive needs. -/
  | notCharacter
  /-- A number is no character. -/
  | noSuchCharacter
  /-- A width or precision that is an argument is no whole number. -/
  | notASize
  /-- There are too few arguments. -/
  | tooFewArguments
  /-- There are too many arguments. -/
  | tooManyArguments
  /-- A directive names a field where the argument is no record. -/
  | notARecord
  /-- A record lacks the field that a directive names. -/
  | noSuchField (name : String)
  /-- A directive has no letter. -/
  | incomplete
  /-- The name of a field does not end. -/
  | incompleteName
  /-- A directive has a letter without meaning. -/
  | unknownLetter (letter : Char) (position : Nat)
  /-- A width is past what can be counted. -/
  | widthTooBig
  /-- A precision is past what can be counted. -/
  | precisionTooBig
  /-- An argument is a width that does not fit a long word. -/
  | widthOverflow
  /-- An argument is a precision that does not fit a word. -/
  | precisionOverflow
  /-- A number cannot be turned into the kind that the directive writes. -/
  | arithmetic (e : ArithmeticFault)
deriving DecidableEq, Repr

namespace TemplateFault

/-- The words for a wrong template or wrong arguments. -/
def message : TemplateFault → String
  | notReal letter kind => s!"%{letter} format: a real number is required, not {kind}"
  | notWhole letter kind => s!"%{letter} format: an integer is required, not {kind}"
  | notDouble kind => s!"must be real number, not {kind}"
  | notCharacter => "%c requires int or char"
  | noSuchCharacter => "%c arg not in range(0x110000)"
  | notASize => "* wants int"
  | tooFewArguments => "not enough arguments for format string"
  | tooManyArguments => "not all arguments converted during string formatting"
  | notARecord => "format requires a mapping"
  | noSuchField name => quote name
  | incomplete => "incomplete format"
  | incompleteName => "incomplete format key"
  | unknownLetter letter position =>
    let shown := if 31 < letter.toNat ∧ letter.toNat < 127 then letter else '?'
    let code := String.ofList (Nat.toDigits 16 letter.toNat)
    s!"unsupported format character '{shown}' (0x{code}) at index {position}"
  | widthTooBig => "width too big"
  | precisionTooBig => "precision too big"
  | widthOverflow => "Python int too large to convert to C ssize_t"
  | precisionOverflow => "Python int too large to convert to C int"
  | arithmetic .roundedNaN => "cannot convert float NaN to integer"
  | arithmetic .roundedInfinity => "cannot convert float infinity to integer"
  | arithmetic _ => "int too large to convert to float"

end TemplateFault

end FormulaPlot
