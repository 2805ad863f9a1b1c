import FormulaPlot.Number.Decimal

/-!
# How numbers are written

A `Layout` says which numbers are written positionally and whether a whole number keeps a zero
after the point; the others are written with an exponent of at least two digits. The library has
three layouts. `plain` is always positional: it is what the rewriting engine splices into a text.
`value` writes a number in answers and records, and `display` the rounded number shown to people.
-/

namespace FormulaPlot

/-- The choices in writing a decimal number. -/
structure Layout where
  /-- Whether a number whose first digit stands for this power of ten is positional. -/
  positional : Int → Bool
  /-- Whether a positional whole number ends in a zero after the point. -/
  keepsPoint : Bool

namespace Layout

/-- Digits with a point and at least one digit on either side, or a whole number without one. -/
def writePositional (keepsPoint : Bool) (d : Decimal) : List Char :=
  let digits := d.digits
  if 0 ≤ d.exponent then
    digits ++ List.replicate d.exponent.toNat '0' ++ if keepsPoint then ['.', '0'] else []
  else
    let places := (-d.exponent).toNat
    -- The point is among the digits, or zeros fill the places between it and them.
    if places < digits.length then
      digits.take (digits.length - places) ++ '.' :: digits.drop (digits.length - places)
    else
      '0' :: '.' :: List.replicate (places - digits.length) '0' ++ digits

/-- An exponent with its sign and at least two digits. -/
def writeExponent (e : Int) : List Char :=
  let digits := Nat.toDigits 10 e.natAbs
  (if e < 0 then '-' else '+') :: if digits.length < 2 then '0' :: digits else digits

/-- One digit, the others after a point, and the power of ten of the first. -/
def writeScientific (d : Decimal) : List Char :=
  let mantissa :=
    match d.digits with
    | [] => []
    | [c] => [c]
    | c :: rest => c :: '.' :: rest
  mantissa ++ 'e' :: writeExponent d.leading

/-- An unsigned decimal number. -/
def write (l : Layout) (d : Decimal) : List Char :=
  if l.positional d.leading then writePositional l.keepsPoint d else writeScientific d

/-- Numbers in rewritten text are always positional and never whole without a zero. -/
def plain : Layout := ⟨fun _ => true, true⟩

/-- Values are positional from `10 ^ -4` to below `10 ^ 16`. -/
def value : Layout := ⟨fun e => -4 ≤ e && e < 16, true⟩

/-- Numbers shown with a number of significant digits are positional from `10 ^ -4` up to the power
of ten that needs them all. -/
def display (count : Nat) : Layout := ⟨fun e => -4 ≤ e && e < count, false⟩

end Layout

/-- A sign in front of a text. -/
def signed (negative : Bool) (text : List Char) : List Char :=
  if negative then '-' :: text else text

/-- A double written by a layout with the decimal that `choose` takes for its magnitude. -/
def writeFloat (l : Layout) (choose : Nat → Decimal) (x : Float) : List Char :=
  match Shape.ofFloat x with
  | .nan => ['n', 'a', 'n']
  | .infinite negative => signed negative ['i', 'n', 'f']
  | .finite negative bits => signed negative (l.write (choose bits))

/-- A double as the engine splices it into a text: the shortest digits that read back, without an
exponent, which the scan for operands would split. -/
def plainText (x : Float) : List Char := writeFloat .plain .shortest x

/-- A double as answers and records show it. -/
def valueText (x : Float) : String := String.ofList (writeFloat .value .shortest x)

/-- A double rounded to a number of significant digits, at least one. No double has more than 767
of them, so a larger number only widens the positional range. -/
def displayText (count : Nat) (x : Float) : String :=
  let count := max count 1
  String.ofList (writeFloat (.display count) (.significant (min count 800)) x)

end FormulaPlot
