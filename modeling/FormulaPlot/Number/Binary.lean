/-!
# Doubles as multiples of the least one

Every finite double is a natural multiple of `2 ^ -1074` with a sign. `units` reads that multiple
off the bits of a magnitude, and `nearest` goes back: it gives the bits of the magnitude nearest to
a quotient, a half going to the even bits. `Shape` splits a `Float` into its sign and the bits of
its magnitude, so that all other numeric rules are stated over natural numbers.
-/

namespace FormulaPlot

/-- The quotient `n / d` rounded to the nearest natural number, a half to the even one. -/
def roundDiv (n d : Nat) : Nat :=
  let q := n / d
  if 2 * (n % d) < d then q else if d < 2 * (n % d) then q + 1 else q + q % 2

namespace Binary

/-- The number of units of `2 ^ -1074` in the magnitude with these bits. -/
def units (bits : Nat) : Nat :=
  if bits < Nat.pow 2 53 then bits
  else (Nat.pow 2 52 + bits % Nat.pow 2 52) * Nat.pow 2 (bits / Nat.pow 2 52 - 1)

/-- The bits of infinity, which are the first above those of every finite magnitude. -/
def infinityBits : Nat := 2047 * Nat.pow 2 52

/-- The bits of the magnitude nearest to `n / d`, which are those of infinity past the largest. -/
def nearest (n d : Nat) : Nat :=
  let n := n * Nat.pow 2 1074
  -- Neighbours are `2 ^ k` units apart where the quotient lies. Rounding up to the next power of
  -- two carries into the exponent, as the bits of magnitudes are in order.
  let k := (n / d).log2 - 52
  min infinityBits (k * Nat.pow 2 52 + roundDiv n (d * Nat.pow 2 k))

end Binary

open Binary

/-- A double by its kind, sign and magnitude. -/
inductive Shape where
  | nan
  | infinite (negative : Bool)
  | finite (negative : Bool) (bits : Nat)
deriving DecidableEq, Repr

namespace Shape

/-- The shape whose sign and magnitude have the given bits, if infinity is past the finite ones. -/
def ofBits (negative : Bool) (bits : Nat) : Shape :=
  if bits < infinityBits then .finite negative bits
  else if bits = infinityBits then .infinite negative
  else .nan

/-- The shape of a double: its upper bit is the sign, the others are the magnitude. -/
def ofFloat (x : Float) : Shape :=
  ofBits (decide (Nat.pow 2 63 ≤ x.toBits.toNat)) (x.toBits.toNat % Nat.pow 2 63)

/-- The double with a sign and the bits of a magnitude. -/
def floatOfBits (negative : Bool) (bits : Nat) : Float :=
  Float.ofBits (UInt64.ofNat (bits + if negative then Nat.pow 2 63 else 0))

/-- The double of a shape. -/
def toFloat : Shape → Float
  | .nan => floatOfBits false (infinityBits + Nat.pow 2 51)
  | .infinite negative => floatOfBits negative infinityBits
  | .finite negative bits => floatOfBits negative bits

/-- The sign of a shape, which NaN has not. -/
def negative : Shape → Bool
  | .nan => false
  | .infinite s => s
  | .finite s _ => s

end Shape

/-- The double nearest to `n / d` with a sign. -/
def floatOfRatio (negative : Bool) (n d : Nat) : Float :=
  (Shape.ofBits negative (nearest n d)).toFloat

/-- Neither NaN nor infinite. -/
def isFinite (x : Float) : Bool :=
  match Shape.ofFloat x with
  | .finite _ _ => true
  | _ => false

end FormulaPlot
