import FormulaPlot.Formula.Basic
import FormulaPlot.Plot.Window

/-!
# Sampling

A formula is sampled at evenly spaced `x` from the start of an interval to before its end. Each `x`
is rounded before the formula is evaluated there. A sample without a finite value is skipped; a
formula without a value ends the sampling.
-/

namespace FormulaPlot

/-- The points of a curve and the number of samples that had no finite value. -/
structure Samples where
  points : List Point
  skipped : Nat

namespace Samples

/-- The `x` of a sample before it is rounded. -/
def position (xMin step : Float) (i : Nat) : Except ArithmeticFault Float := do
  let k ← floatOfInt i
  return xMin + k * step

/-- One sample: the point with its rounded `x`, whether or not its value is finite. -/
def one (cfg : Settings) (f : Formula) (x : Float) : Logged Point := do
  let x ← Noted.ofExcept ((roundToPlaces cfg.sampleRoundingDigits x).mapError .arithmetic)
  let y ← (f.evaluate cfg (.real x)).logged cfg
  if isFinite y then return ⟨x, y⟩
  else do
    Noted.note {
      level := .debug, topic := .sampling
      message := s!"Skipped sample at x={valueText x}: value {valueText y}" }
    return ⟨x, y⟩

/-- Takes up to `count` samples at their positions from the one with number `i` on, after those in
`points` with the last one first, of which `skipped` were skipped. The records in `notes` are the
last ones first. -/
def collect (position : Nat → Except ArithmeticFault Float) (sample : Float → Logged Point)
    (xMax : Float) (notes : List Record) (points : List Point) (skipped i : Nat) :
    Nat → Logged Samples
  | 0 => ⟨notes.reverse, .ok ⟨points.reverse, skipped⟩⟩
  | count + 1 =>
    match position i with
    | .error e => ⟨notes.reverse, .error (.arithmetic e)⟩
    | .ok x =>
      -- Rounding can bring the last steps to the end of the interval, which is not part of it.
      if xMax ≤ x then ⟨notes.reverse, .ok ⟨points.reverse, skipped⟩⟩
      else
        let taken := sample x
        let notes := taken.notes.reverse ++ notes
        match taken.outcome with
        | .error e => ⟨notes.reverse, .error e⟩
        | .ok p =>
          if isFinite p.y then
            collect position sample xMax notes (p :: points) skipped (i + 1) count
          else collect position sample xMax notes points (skipped + 1) (i + 1) count

/-- Samples a formula from `xMin` to before `xMax` in a number of steps, which is that of the
settings if none is given. -/
def take (cfg : Settings) (f : Formula) (xMin xMax : Float) (steps : Option Int) :
    Logged Samples := do
  let steps := steps.getD cfg.defaultSamples
  if steps ≤ 0 then Noted.fail (.invalid .invalidSamples)
  else if xMin < xMax then do
    let count ← Noted.ofExcept ((floatOfInt steps).mapError .arithmetic)
    collect (position xMin ((xMax - xMin) / count)) (one cfg f) xMax [] [] 0 0 steps.toNat
  else Noted.fail (.invalid .invalidRange)

end Samples

end FormulaPlot
