import FormulaPlot.Number.Decimal

/-!
# Rounding doubles

`roundToInt` rounds to a whole number and `roundToPlaces` to a number of decimal places, which may
be negative. Both round the exact value and send a half to the even neighbour. What has no answer
is an `ArithmeticFault`.
-/

namespace FormulaPlot

open Binary

/-- Numeric operations that have no answer. -/
inductive ArithmeticFault where
  /-- NaN has no nearest whole number. -/
  | roundedNaN
  /-- Infinity has no nearest whole number. -/
  | roundedInfinity
  /-- The rounded value is past the largest double. -/
  | roundedTooLarge
  /-- A whole number is past the largest double. -/
  | wholeTooLarge
  /-- A number of significant digits is negative. -/
  | negativePrecision
  /-- A number of significant digits does not fit a machine word. -/
  | precisionTooBig
  /-- A number of significant digits is too long to be read. -/
  | precisionTooLong
deriving DecidableEq, Repr

/-- A natural number with a sign. -/
def withSign (negative : Bool) (n : Nat) : Int := if negative then -n else n

/-- The whole number nearest to a double, a half to the even one. -/
def roundToInt (x : Float) : Except ArithmeticFault Int :=
  match Shape.ofFloat x with
  | .nan => .error .roundedNaN
  | .infinite _ => .error .roundedInfinity
  | .finite negative bits => .ok (withSign negative (roundDiv (units bits) (Nat.pow 2 1074)))

/-- A double rounded to a number of decimal places. NaN and infinity stay. With 1074 places or more
nothing is lost, and a step of `10 ^ 400` is past twice the largest double. -/
def roundToPlaces (places : Int) (x : Float) : Except ArithmeticFault Float :=
  match Shape.ofFloat x with
  | .finite negative bits =>
    if 1074 ≤ places then .ok x
    else if places ≤ -400 then .ok (Shape.finite negative 0).toFloat
    else
      let y := (Decimal.fixed places bits).toFloat negative
      if isFinite y then .ok y else .error .roundedTooLarge
  | _ => .ok x

/-- A double cut to a whole number toward zero. -/
def truncateToInt (x : Float) : Except ArithmeticFault Int :=
  match Shape.ofFloat x with
  | .nan => .error .roundedNaN
  | .infinite _ => .error .roundedInfinity
  | .finite negative bits => .ok (withSign negative (units bits / Nat.pow 2 1074))

/-- The double nearest to a whole number, if that is finite. -/
def floatOfInt (n : Int) : Except ArithmeticFault Float :=
  let x := floatOfRatio (decide (n < 0)) n.natAbs 1
  if isFinite x then .ok x else .error .wholeTooLarge

end FormulaPlot
