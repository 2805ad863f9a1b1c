import FormulaPlot.Proofs.Plot.Picture

/-!
# The cells of a picture

What a picture shows in a cell depends on nothing but the cell: a point that is located there, and
else the axes (`cellChar`). So neither the order of the points nor how often one is drawn makes a
difference (`draw_cells`).

Drawing goes over a grid several times. Each time it is a grid of characters that are given by their
column and row (`grid`), and a step changes this function at one cell (`put_grid`).
-/

namespace FormulaPlot.Picture

open Window

/-- A point that is located has a cell in a grid or none at all. -/
def Inside (cols rows : Int) (r : Except ArithmeticFault (Option (Int × Int))) : Prop :=
  ∃ cell, r = .ok cell ∧ ∀ c ∈ cell, (0 ≤ c.1 ∧ c.1 < cols) ∧ 0 ≤ c.2 ∧ c.2 < rows

/-- All that is located for a picture is inside of it or outside of the window. -/
structure Fitting (w : Window) (points : List Point) (cols rows : Int) : Prop where
  origin : Inside cols rows (w.locate ⟨0, 0⟩ cols rows)
  xAxis : w.yMin ≤ 0 → 0 ≤ w.yMax → Inside cols rows (w.locate ⟨w.xMin, 0⟩ cols rows)
  yAxis : w.xMin ≤ 0 → 0 ≤ w.xMax → Inside cols rows (w.locate ⟨0, w.yMin⟩ cols rows)
  points : ∀ p ∈ points, Inside cols rows (w.locate p cols rows)

/-- What a picture shows in a cell: a point that is located there, the origin, the axis in the row
of `y = 0`, the one in the column of `x = 0`, or nothing. -/
def cellChar (w : Window) (points : List Point) (cols rows col row : Int) : Char :=
  if ∃ p ∈ points, w.locate p cols rows = .ok (some (col, row)) then '*'
  else if w.locate ⟨0, 0⟩ cols rows = .ok (some (col, row)) then '+'
  else if (w.yMin ≤ 0 ∧ 0 ≤ w.yMax) ∧ cell (fraction w.yMin w.yMax 0) rows = .ok row then '-'
  else if (w.xMin ≤ 0 ∧ 0 ≤ w.xMax) ∧ cell (fraction w.xMin w.xMax 0) cols = .ok col then '|'
  else ' '

/-- Setting a value in the list of a function changes the function there. -/
theorem set_map_range {α : Type} (n k : Nat) (h : Nat → α) (a : α) :
    ((List.range n).map h).set k a = (List.range n).map fun i => if i = k then a else h i :=
  List.ext_getElem (by simp) fun i _ _ => by simp [List.getElem_set, eq_comm]

section Grid

variable {cols rows col row : Int} (f : Int → Int → Char)

/-- Putting a character into a grid changes it in one cell. -/
theorem put_grid (hcol : 0 ≤ col ∧ col < cols) (hrow : 0 ≤ row ∧ row < rows) (c : Char) :
    put (grid cols rows f) col row c =
      .ok (grid cols rows fun i j => if i = col ∧ j = row then c else f i j) := by
  have hline : (grid cols rows f).getD row.toNat [] =
      (List.range cols.toNat).map fun (i : Nat) => f i row := by
    rw [grid, List.getD_eq_getElem _ _ (by simp; omega), List.getElem_map, List.getElem_range,
      Int.toNat_of_nonneg hrow.1]
  rw [put, place?_of_lt hrow.1 (by simp [grid]; omega)]
  simp only [hline]
  rw [place?_of_lt hcol.1 (by simp; omega)]
  simp only
  rw [grid, set_map_range, set_map_range]
  refine congrArg Except.ok (List.map_congr_left fun j _ => ?_)
  -- Only the line of the row is replaced, and in it only the character of the column.
  by_cases hj : j = row.toNat
  · have hj' : (j : Int) = row := by omega
    rw [if_pos hj, hj']
    refine List.map_congr_left fun i _ => ?_
    have hi : i = col.toNat ↔ (i : Int) = col := by omega
    simp only [hi, and_true]
  · have hj' : (j : Int) ≠ row := by omega
    rw [if_neg hj]
    simp only [hj', and_false, if_false]

/-- The lines of a grid from the top down. -/
theorem lines_grid : (grid cols rows f).lines =
    (List.range rows.toNat).map fun (r : Nat) =>
      String.ofList ((List.range cols.toNat).map fun (c : Nat) => f c (rows - 1 - r)) := by
  rw [lines, grid, ← List.map_reverse, List.map_map]
  refine List.ext_getElem (by simp) fun r h _ => ?_
  have hr : r < rows.toNat := by simpa using h
  have hrow : ((rows.toNat - 1 - r : Nat) : Int) = rows - 1 - r := by omega
  simp only [List.getElem_map, List.getElem_reverse, List.getElem_range, List.length_range,
    Function.comp_apply, hrow]

end Grid

section Window

variable {w : Window} {points : List Point} {cols rows : Int} {p : Point}

/-! ## The axes -/

/-- A point in the window is located in the row and the column of its coordinates. -/
theorem exists_axisCell_of_inside {x y : Float} (hp : w.contains ⟨x, y⟩ = true)
    (h : Inside cols rows (w.locate ⟨x, y⟩ cols rows)) :
    ∃ c, axisCell w ⟨x, y⟩ cols rows = .ok c ∧ cell (fraction w.xMin w.xMax x) cols = .ok c.1 ∧
      cell (fraction w.yMin w.yMax y) rows = .ok c.2 := by
  obtain ⟨c, hc, -⟩ := h
  cases c with
  | none =>
    -- A point in the window has a cell.
    rw [locate_eq_none_iff] at hc
    exact absurd hp hc
  | some c =>
    refine ⟨c, ?_, (locate_eq_some_iff.1 hc).2⟩
    rw [axisCell, hc]
    rfl

/-- An axis is where its condition holds, in the row or column of its part of a cell. -/
theorem exists_axis {c : Prop} [Decidable c] (part : Int × Int → Int)
    {place : Except ArithmeticFault Int}
    (h : c → ∃ e, axisCell w p cols rows = .ok e ∧ place = .ok (part e)) :
    ∃ axis,
      (if c then (axisCell w p cols rows).map fun e => some (part e) else .ok none) = .ok axis ∧
        ∀ n, axis = some n ↔ c ∧ place = .ok n := by
  by_cases hc : c
  · obtain ⟨e, he, hplace⟩ := h hc
    refine ⟨some (part e), ?_, fun n => ?_⟩
    · rw [if_pos hc, he]
      rfl
    · simp [hc, hplace]
  · exact ⟨none, if_neg hc, fun n => by simp [hc]⟩

/-- The axes leave in each cell what a picture without points shows there. -/
theorem axes_eq_grid (hx : w.xMin ≤ w.xMax) (hy : w.yMin ≤ w.yMax)
    (h : Fitting w points cols rows) :
    axes w cols rows = .ok (grid cols rows (cellChar w [] cols rows)) := by
  have hself {a b : Float} (hab : a ≤ b) : a ≤ a :=
    le_iff.2 ⟨(le_iff.1 hab).1, (le_iff.1 hab).1, le_rfl⟩
  obtain ⟨origin, horigin, -⟩ := h.origin
  -- The start of an axis is in the window if the axis is, so it has a cell.
  have hacross (hc : w.yMin ≤ 0 ∧ 0 ≤ w.yMax) : ∃ e, axisCell w ⟨w.xMin, 0⟩ cols rows = .ok e ∧
      cell (fraction w.yMin w.yMax 0) rows = .ok e.2 := by
    obtain ⟨e, he, -, hrow⟩ := exists_axisCell_of_inside
      (contains_iff.2 ⟨hself hx, hx, hc⟩) (h.xAxis hc.1 hc.2)
    exact ⟨e, he, hrow⟩
  have hup (hc : w.xMin ≤ 0 ∧ 0 ≤ w.xMax) : ∃ e, axisCell w ⟨0, w.yMin⟩ cols rows = .ok e ∧
      cell (fraction w.xMin w.xMax 0) cols = .ok e.1 := by
    obtain ⟨e, he, hcol, -⟩ := exists_axisCell_of_inside
      (contains_iff.2 ⟨hc.1, hc.2, hself hy, hy⟩) (h.yAxis hc.1 hc.2)
    exact ⟨e, he, hcol⟩
  obtain ⟨xAxis, hxAxis, hrow⟩ := exists_axis Prod.snd hacross
  obtain ⟨yAxis, hyAxis, hcol⟩ := exists_axis Prod.fst hup
  rw [axes_eq horigin hxAxis hyAxis]
  -- Both functions ask for the origin first, then for the row and for the column.
  refine congrArg (fun f => Except.ok (grid cols rows f)) ?_
  funext i j
  simp [axisChar, cellChar, horigin, hrow, hcol]

/-! ## The points -/

/-- A point that is located inside leaves its mark in its cell. -/
theorem plotPoint_grid (hp : Inside cols rows (w.locate p cols rows)) (f : Int → Int → Char) :
    plotPoint w cols rows (grid cols rows f) p = .ok (grid cols rows fun i j =>
      if w.locate p cols rows = .ok (some (i, j)) then '*' else f i j) := by
  obtain ⟨c, hc, hinside⟩ := hp
  rw [plotPoint, hc]
  cases c with
  | none => simp [Except.mapError, Bind.bind, Except.bind]
  | some c =>
    obtain ⟨hcol, hrow⟩ := hinside c rfl
    refine (put_grid f hcol hrow '*').trans ?_
    simp only [Except.ok.injEq, Option.some.injEq, Prod.ext_iff, eq_comm]

/-- Points that are located inside leave their marks in their cells. -/
theorem foldlM_grid (h : ∀ p ∈ points, Inside cols rows (w.locate p cols rows))
    (f : Int → Int → Char) :
    points.foldlM (plotPoint w cols rows) (grid cols rows f) = .ok (grid cols rows fun i j =>
      if ∃ p ∈ points, w.locate p cols rows = .ok (some (i, j)) then '*' else f i j) := by
  induction points generalizing f with
  | nil => simp [pure, Except.pure]
  | cons p points ih =>
    rw [List.foldlM_cons, plotPoint_grid (h p List.mem_cons_self)]
    -- The grid of the first mark is one of a function again, so the others go on from there.
    refine (ih (fun q hq => h q (List.mem_cons_of_mem p hq)) _).trans ?_
    refine congrArg (fun g => Except.ok (grid cols rows g)) ?_
    funext i j
    by_cases hp : w.locate p cols rows = .ok (some (i, j)) <;> simp [hp]

/-- A picture shows the same points in whatever order and number they are given. -/
theorem cellChar_congr {points' : List Point} (h : ∀ p, p ∈ points' ↔ p ∈ points) :
    cellChar w points' cols rows = cellChar w points cols rows := by
  funext i j
  simp only [cellChar, h]

/-- A picture whose points are located inside of it is the grid of what it shows in its cells. -/
theorem draw_eq_grid (cfg : Settings) (hx : w.xMin ≤ w.xMax) (hy : w.yMin ≤ w.yMax)
    (hrows : 1 ≤ rows) (hcols : 1 ≤ cols) (h : Fitting w points cols rows) :
    draw cfg points w (some rows) (some cols) =
      .ok (grid cols rows (cellChar w points cols rows)) := by
  have hsize {n : Int} (hn : 1 ≤ n) (default : Int) : size (some n) default = n :=
    if_neg (by omega)
  rw [draw, hsize hrows, hsize hcols, axes_eq_grid hx hy h]
  refine (foldlM_grid h.points _).trans ?_
  refine congrArg (fun f => Except.ok (grid cols rows f)) ?_
  funext i j
  simp [cellChar]

end Window

/-- Lines of a picture are not broken. -/
theorem cellChar_ne_newline (w : Window) (points : List Point) (cols rows col row : Int) :
    cellChar w points cols rows col row ≠ '\n' := by
  unfold cellChar
  repeat' split
  all_goals decide

/-- If all that is located for a picture is inside of it or outside of the window, it has as many
lines as rows are asked for and in each as many characters as columns. Each character is the one
that the points and the axes call for in its cell, where the last line is row zero. And the picture
is the same for all lists of the same points. -/
theorem draw_cells (cfg : Settings) {w : Window} (hx : w.xMin ≤ w.xMax) (hy : w.yMin ≤ w.yMax)
    {points : List Point} {cols rows : Int} (hrows : 1 ≤ rows) (hcols : 1 ≤ cols)
    (h : Fitting w points cols rows) :
    ∃ g, draw cfg points w (some rows) (some cols) = .ok g ∧
      g.text = "\n".intercalate g.lines ∧ (g.lines.length : Int) = rows ∧
      (∀ line ∈ g.lines, (line.length : Int) = cols ∧ '\n' ∉ line.toList) ∧
      (g.lines = (List.range rows.toNat).map fun (r : Nat) =>
        String.ofList ((List.range cols.toNat).map fun (c : Nat) =>
          cellChar w points cols rows c (rows - 1 - r))) ∧
      ∀ points' : List Point, (∀ p, p ∈ points' ↔ p ∈ points) →
        draw cfg points' w (some rows) (some cols) = .ok g := by
  have hlines : (grid cols rows (cellChar w points cols rows)).lines = _ := lines_grid _
  refine ⟨_, draw_eq_grid cfg hx hy hrows hcols h, rfl, ?_, fun line hline => ?_, hlines,
    fun points' hsame => ?_⟩
  · rw [hlines, List.length_map, List.length_range]
    omega
  · rw [hlines] at hline
    obtain ⟨r, -, rfl⟩ := List.mem_map.1 hline
    constructor
    · rw [String.length_ofList, List.length_map, List.length_range]
      omega
    · rw [String.toList_ofList]
      intro hmem
      obtain ⟨c, -, hc⟩ := List.mem_map.1 hmem
      exact cellChar_ne_newline w points cols rows c (rows - 1 - r) hc
  · -- The points matter only by which of them there are.
    rw [draw_eq_grid cfg hx hy hrows hcols
      { h with points := fun p hp => h.points p ((hsame p).1 hp) }, cellChar_congr hsame]

/-- The corners of a window around the origin, and a point above it. -/
theorem draw_cells_corners :
    ((-1 : Float) ≤ 1 ∧ (1 : Int) ≤ 3) ∧
      Fitting ⟨-1, 1, -1, 1⟩ [⟨1, 1⟩, ⟨-1, -1⟩, ⟨0, 2⟩] 3 3 ∧
      ∃ g, draw {} [⟨1, 1⟩, ⟨-1, -1⟩, ⟨0, 2⟩] ⟨-1, 1, -1, 1⟩ (some 3) (some 3) = .ok g ∧
        g.lines = [" |*", "-+-", "*| "] := by
  have hle : (-1 : Float) ≤ 1 := by decide +kernel
  have hfit : Fitting ⟨-1, 1, -1, 1⟩ [⟨1, 1⟩, ⟨-1, -1⟩, ⟨0, 2⟩] 3 3 := by
    refine ⟨⟨some (1, 1), by decide +kernel, by decide⟩,
      fun _ _ => ⟨some (0, 1), by decide +kernel, by decide⟩,
      fun _ _ => ⟨some (1, 0), by decide +kernel, by decide⟩, ?_⟩
    simp only [List.forall_mem_cons]
    exact ⟨⟨some (2, 2), by decide +kernel, by decide⟩, ⟨some (0, 0), by decide +kernel, by decide⟩,
      ⟨none, by decide +kernel, by decide⟩, by simp⟩
  obtain ⟨g, hg, -, -, -, hlines, -⟩ := draw_cells (w := ⟨-1, 1, -1, 1⟩) {} hle hle
    (by decide) (by decide) hfit
  refine ⟨⟨hle, by decide⟩, hfit, g, hg, hlines.trans ?_⟩
  decide +kernel

end FormulaPlot.Picture
