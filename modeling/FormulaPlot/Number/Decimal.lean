import FormulaPlot.Number.Binary

/-!
# Decimal numbers that stand for doubles

A `Decimal` is `coefficient · 10 ^ exponent`. Two rules choose one for a magnitude: `shortest` has
the fewest digits that read back as the same double and is the nearest of those, and `significant`
has a given number of digits. `toFloat` reads one back as the nearest double.

All comparisons are exact. A magnitude of `u` units is `u / 2 ^ 1074`, so a grid point `c · 10 ^ e`
is compared with it after both are cleared of their denominators.
-/

namespace FormulaPlot

open Binary

/-- The number `coefficient · 10 ^ exponent`. -/
structure Decimal where
  coefficient : Nat
  exponent : Int
deriving DecidableEq, Repr

namespace Decimal

/-- The digits of the coefficient, the first one first. -/
def digits (d : Decimal) : List Char := Nat.toDigits 10 d.coefficient

/-- The power of ten of the first digit. -/
def leading (d : Decimal) : Int := d.exponent + d.digits.length - 1

/-- The number `coefficient · 10 ^ exponent` without zeros at the end of its coefficient. -/
def trimmed (coefficient : Nat) (exponent : Int) : Decimal :=
  if 0 < coefficient ∧ coefficient % 10 = 0 then trimmed (coefficient / 10) (exponent + 1)
  else ⟨coefficient, exponent⟩
termination_by coefficient
decreasing_by omega

/-- The magnitude of `bits` as a quotient of natural numbers in steps of `10 ^ e`. -/
def steps (bits : Nat) (e : Int) : Nat × Nat :=
  (units bits * Nat.pow 10 (-e).toNat, Nat.pow 2 1074 * Nat.pow 10 e.toNat)

/-- Whether `c · 10 ^ e` lies in the interval of the numbers that read as the magnitude of `bits`.
The interval ends halfway to each neighbour and holds its ends when the bits are even. -/
def readsBack (bits c : Nat) (e : Int) : Bool :=
  let value := c * Nat.pow 10 e.toNat * Nat.pow 2 1075
  let low := (units (bits - 1) + units bits) * Nat.pow 10 (-e).toNat
  let high := (units bits + units (bits + 1)) * Nat.pow 10 (-e).toNat
  if bits % 2 = 0 then low ≤ value && value ≤ high else low < value && value < high

/-- Whether a magnitude has `k` digits before the point: `10 ^ (k - 1) ≤ m < 10 ^ k`. -/
def inDecade (bits : Nat) (k : Int) : Bool :=
  let (n, d) := steps bits (k - 1)
  d ≤ n && n < 10 * d

/-- A number of digits before the point that is right or one too small, as `2` is near
`10 ^ 0.30103`. -/
def digitsGuess (bits : Nat) : Int := (((units bits).log2 : Int) - 1074) * 30103 / 100000 + 1

/-- The number of digits before the point of a positive magnitude, which is negative for one with
zeros after the point. Where the guess fails the digits are counted. -/
def integerDigits (bits : Nat) : Int :=
  let k := digitsGuess bits
  if inDecade bits k then k
  else if inDecade bits (k + 1) then k + 1
  else (Nat.toDigits 10 (units bits * Nat.pow 10 400 / Nat.pow 2 1074)).length - 400

/-- The number of steps of `10 ^ e` that reads back and is nearest to the magnitude, if one of its
two neighbours on that grid reads back. -/
def onGrid? (bits : Nat) (e : Int) : Option Nat :=
  let (n, d) := steps bits e
  let q := n / d
  -- If any number on the grid reads back, one of the two next to the magnitude does.
  match readsBack bits q e, readsBack bits (q + 1) e with
  | true, true => some (roundDiv n d)
  | true, false => some q
  | false, true => some (q + 1)
  | false, false => none

/-- The magnitude rounded to a number of significant digits, a half to the even digit. -/
def significant (count : Nat) (bits : Nat) : Decimal :=
  if bits = 0 then ⟨0, 0⟩
  else
    let e := integerDigits bits - count
    let (n, d) := steps bits e
    trimmed (roundDiv n d) e

/-- The magnitude rounded to a number of places after the point, a half to the even digit. -/
def fixed (places : Int) (bits : Nat) : Decimal :=
  let (n, d) := steps bits (-places)
  ⟨roundDiv n d, -places⟩

/-- The nearest decimal among those with the fewest digits that read back as the magnitude. No
double needs more than seventeen. -/
def shortest (bits : Nat) : Decimal :=
  if bits = 0 then ⟨0, 0⟩
  else
    let k := integerDigits bits
    let onGrid (count : Nat) : Option Decimal :=
      (onGrid? bits (k - count)).map fun c => trimmed c (k - count)
    match (List.range' 1 17).findSome? onGrid with
    | some d => d
    | none => significant 17 bits

/-- The double nearest to the decimal, with a sign. Exponents far beyond those of doubles are
settled without computing the power. -/
def toFloat (negative : Bool) (d : Decimal) : Float :=
  if d.coefficient = 0 then (Shape.finite negative 0).toFloat
  else if 310 < d.leading then (Shape.infinite negative).toFloat
  else if d.leading < -330 then (Shape.finite negative 0).toFloat
  else
    floatOfRatio negative (d.coefficient * Nat.pow 10 d.exponent.toNat)
      (Nat.pow 10 (-d.exponent).toNat)

end Decimal

end FormulaPlot
