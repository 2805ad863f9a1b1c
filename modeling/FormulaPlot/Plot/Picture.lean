import FormulaPlot.Plot.Window
import FormulaPlot.Settings

/-!
# Pictures in characters

A picture is a grid of characters, its rows from the bottom up. The axes are drawn where zero is in
the window, `-` across and `|` up with `+` where they meet, and then each point of the curve as `*`.
-/

namespace FormulaPlot

/-- The rows of a picture from the bottom up. -/
abbrev Picture := List (List Char)

namespace Picture

/-- The place in a list of an index that counts from the end when it is negative. -/
def place? (length : Nat) (i : Int) : Option Nat :=
  let k := if i < 0 then i + length else i
  if 0 ≤ k ∧ k < length then some k.toNat else none

/-- Puts a character into a cell. -/
def put (g : Picture) (col row : Int) (c : Char) : Except Fault Picture :=
  match place? g.length row with
  | none => .error .rowOutside
  | some r =>
    let line := g.getD r []
    match place? line.length col with
    | none => .error .columnOutside
    | some k => .ok (g.set r (line.set k c))

/-- What the axes leave in a cell. -/
def axisChar (origin : Option (Int × Int)) (xAxis yAxis : Option Int) (col row : Int) : Char :=
  -- The origin is on both axes, and the horizontal one hides the vertical one elsewhere.
  if origin = some (col, row) then '+'
  else if xAxis = some row then '-'
  else if yAxis = some col then '|'
  else ' '

/-- The cell where the axis through a point of the window's edge ends. -/
def axisCell (w : Window) (p : Point) (cols rows : Int) : Except Fault (Int × Int) := do
  match ← (w.locate p cols rows).mapError Fault.arithmetic with
  | none => .error .axisOutside
  | some cell => .ok cell

/-- A grid with the axes of a window. -/
def axes (w : Window) (cols rows : Int) : Except Fault Picture := do
  let origin ← (w.locate ⟨0, 0⟩ cols rows).mapError Fault.arithmetic
  let xAxis ←
    if w.yMin ≤ 0 ∧ 0 ≤ w.yMax then (axisCell w ⟨w.xMin, 0⟩ cols rows).map fun c => some c.2
    else .ok none
  let yAxis ←
    if w.xMin ≤ 0 ∧ 0 ≤ w.xMax then (axisCell w ⟨0, w.yMin⟩ cols rows).map fun c => some c.1
    else .ok none
  return (List.range rows.toNat).map fun (row : Nat) =>
    (List.range cols.toNat).map fun (col : Nat) => axisChar origin xAxis yAxis col row

/-- Draws a point where the window shows it. -/
def plotPoint (w : Window) (cols rows : Int) (g : Picture) (p : Point) : Except Fault Picture := do
  match ← (w.locate p cols rows).mapError Fault.arithmetic with
  | none => .ok g
  | some (col, row) => put g col row '*'

/-- The size that is asked for, or else that of the settings. -/
def size (asked : Option Int) (default : Int) : Int :=
  match asked with
  | none => default
  | some n => if n = 0 then default else n

/-- The picture of points in a window. -/
def draw (cfg : Settings) (points : List Point) (w : Window) (rows cols : Option Int) :
    Except Fault Picture := do
  let rows := size rows cfg.asciiRows
  let cols := size cols cfg.asciiCols
  let g ← axes w cols rows
  points.foldlM (plotPoint w cols rows) g

/-- The lines of a picture from the top down. -/
def lines (g : Picture) : List String := g.reverse.map String.ofList

/-- A picture as one text. -/
def text (g : Picture) : String := "\n".intercalate g.lines

end Picture

end FormulaPlot
