import FormulaPlot.Fault

/-!
# Windows

A `Window` is the interval of `x` and the interval of `y` that a picture shows. `Window.locate` maps
a point to the cell of a grid that it falls into.
-/

namespace FormulaPlot

/-- A point of a curve. -/
structure Point where
  x : Float
  y : Float

/-- The part of the plane that a picture shows. -/
structure Window where
  xMin : Float
  xMax : Float
  yMin : Float
  yMax : Float

namespace Window

/-- A window both of whose intervals end no sooner than they start. -/
def validate (w : Window) : Except InputError Window :=
  if w.xMax < w.xMin ∨ w.yMax < w.yMin then .error .invalidRange else .ok w

/-- Whether a point is in the window, its edges included. -/
def contains (w : Window) (p : Point) : Bool :=
  w.xMin ≤ p.x && p.x ≤ w.xMax && w.yMin ≤ p.y && p.y ≤ w.yMax

/-- The position of `v` between `low` and `high` as a fraction, or zero where they are the same. -/
def fraction (low high v : Float) : Float :=
  if high - low == 0 then 0 else (v - low) / (high - low)

/-- The position of a point as fractions of the width and the height. -/
def relative (w : Window) (p : Point) : Float × Float :=
  (fraction w.xMin w.xMax p.x, fraction w.yMin w.yMax p.y)

/-- The least of a value and others, where a later one must be strictly less to count. -/
def least (y : Float) (ys : List Float) : Float := ys.foldl (fun m v => if v < m then v else m) y

/-- The greatest of a value and others, where a later one must be strictly greater to count. -/
def greatest (y : Float) (ys : List Float) : Float :=
  ys.foldl (fun m v => if m < v then v else m) y

/-- The window over an interval of `x` whose `y` fit the points, with some room around a level
line. -/
def around (xMin xMax : Float) (points : List Point) : Window :=
  match points.map Point.y with
  | [] => ⟨xMin, xMax, -1, 1⟩
  | y :: ys =>
    let low := least y ys
    let high := greatest y ys
    if low == high then ⟨xMin, xMax, low - 1, high + 1⟩ else ⟨xMin, xMax, low, high⟩

/-- The cell at a fraction of a number of cells, counted from zero. -/
def cell (fraction : Float) (count : Int) : Except ArithmeticFault Int := do
  let last ← floatOfInt (count - 1)
  roundToInt (fraction * last)

/-- The column and row of a point in a grid over the window, row zero at the bottom. A point outside
the window has none. -/
def locate (w : Window) (p : Point) (cols rows : Int) :
    Except ArithmeticFault (Option (Int × Int)) :=
  if w.contains p then do
    let (x, y) := w.relative p
    let col ← cell x cols
    let row ← cell y rows
    return some (col, row)
  else .ok none

end Window

end FormulaPlot
