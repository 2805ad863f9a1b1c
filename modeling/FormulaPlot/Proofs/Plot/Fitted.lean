import FormulaPlot.Proofs.Plot.Cells
import FormulaPlot.Proofs.Plot.Locate

/-!
# Pictures of fitted windows

A window that is fitted to points shows all of them, and the lowest and the highest one are in the
last and the first line of the picture (`draw_around`).

In a window that is not too large every point has a cell, or it is outside, so all that a picture
draws is inside of it (`Measured.fitting`). The lowest and the highest point are at the ends of the
window and so at the edges of the grid, unless the points are level.
-/

namespace FormulaPlot.Picture

open Window

/-- The character of a cell is in the line of its row, where the last line is row zero. -/
theorem exists_getElem?_lines_grid {cols rows col row : Int} (f : Int → Int → Char)
    (hcol : 0 ≤ col ∧ col < cols) (hrow : 0 ≤ row ∧ row < rows) :
    ∃ line, (grid cols rows f).lines[(rows - 1 - row).toNat]? = some line ∧
      line.toList[col.toNat]? = some (f col row) := by
  have hr : rows - 1 - ((rows - 1 - row).toNat : Int) = row := by omega
  have hc : (col.toNat : Int) = col := Int.toNat_of_nonneg hcol.1
  rw [lines_grid, List.getElem?_map, List.getElem?_range (by omega)]
  refine ⟨_, rfl, ?_⟩
  rw [String.toList_ofList, List.getElem?_map, List.getElem?_range (by omega), Option.map_some, hr,
    hc]

section Measured

variable {w : Window} {cols rows : Int} (hw : w.Measured) (hcols : 1 ≤ cols)
  (hlastCol : IsExact (cols - 1)) (hrows : 1 ≤ rows) (hlastRow : IsExact (rows - 1))

include hw hcols hlastCol hrows hlastRow

/-- In a measured window a point is located inside of the grid or not at all. -/
theorem inside_locate (p : Point) : Inside cols rows (w.locate p cols rows) := by
  by_cases hp : w.contains p = true
  · obtain ⟨col, row, hc, hinside⟩ := hw.exists_locate hcols hlastCol hrows hlastRow hp
    refine ⟨some (col, row), hc, fun c h => ?_⟩
    cases h
    exact hinside
  · exact ⟨none, locate_of_not_contains hp, fun c h => by cases h⟩

/-- All that is drawn in a measured window is inside of the picture. -/
theorem fitting (points : List Point) : Fitting w points cols rows := by
  have h := inside_locate hw hcols hlastCol hrows hlastRow
  exact ⟨h _, fun _ _ => h _, fun _ _ => h _, fun p _ => h p⟩

variable {points : List Point} {p : Point} (hp : p ∈ points) (hin : w.contains p = true)

include hp hin

/-- The picture has a mark in the cell of every point that the window shows. -/
theorem exists_mark :
    ∃ col row, w.locate p cols rows = .ok (some (col, row)) ∧
      (0 ≤ col ∧ col < cols) ∧ (0 ≤ row ∧ row < rows) ∧
      ∃ line, (grid cols rows (cellChar w points cols rows)).lines[(rows - 1 - row).toNat]? =
        some line ∧ line.toList[col.toNat]? = some '*' := by
  obtain ⟨col, row, hc, hcol, hrow⟩ :=
    hw.exists_locate hcols hlastCol hrows hlastRow hin
  have hchar : cellChar w points cols rows col row = '*' := if_pos ⟨p, hp, hc⟩
  exact ⟨col, row, hc, hcol, hrow, hchar ▸ exists_getElem?_lines_grid _ hcol hrow⟩

/-- The mark of a point on the lower edge is in the last line. -/
theorem exists_mark_last (hy : p.y = w.yMin) :
    ∃ line, (grid cols rows (cellChar w points cols rows)).lines.getLast? = some line ∧
      '*' ∈ line.toList := by
  obtain ⟨col, row, hc, -, hrow, line, hline, hchar⟩ :=
    exists_mark hw hcols hlastCol hrows hlastRow hp hin
  obtain ⟨-, -, h1, h2⟩ := contains_iff.1 hin
  have hself : (p.y == w.yMin) = true :=
    beq_iff.2 ⟨(le_iff.1 h1).2.1, (le_iff.1 h1).1, congrArg amount hy⟩
  obtain rfl := cell_fraction_low hw.yMin hw.yMax hw.height h1 h2 hself
    (locate_eq_some_iff.1 hc).2.2
  -- Row zero is drawn last.
  have hlength : (grid cols rows (cellChar w points cols rows)).lines.length - 1 =
      (rows - 1 - 0).toNat := by
    rw [lines_grid, List.length_map, List.length_range]
    omega
  refine ⟨line, ?_, List.mem_of_getElem? hchar⟩
  rw [List.getLast?_eq_getElem?, hlength, hline]

/-- The mark of a point on the upper edge is in the first line, if that is not the lower one. -/
theorem exists_mark_first (hlt : w.yMin < w.yMax) (hy : p.y = w.yMax) :
    ∃ line, (grid cols rows (cellChar w points cols rows)).lines.head? = some line ∧
      '*' ∈ line.toList := by
  obtain ⟨col, row, hc, -, hrow, line, hline, hchar⟩ :=
    exists_mark hw hcols hlastCol hrows hlastRow hp hin
  obtain ⟨-, -, h1, h2⟩ := contains_iff.1 hin
  have hself : (p.y == w.yMax) = true :=
    beq_iff.2 ⟨(le_iff.1 h2).1, (le_iff.1 h2).2.1, congrArg amount hy⟩
  -- It is in the last row, which is drawn first.
  obtain rfl := cell_fraction_high hw.yMin hw.yMax hw.height h1 h2 hlastRow hlt hself
    (locate_eq_some_iff.1 hc).2.2
  rw [sub_self, Int.toNat_zero] at hline
  refine ⟨line, ?_, List.mem_of_getElem? hchar⟩
  rw [List.head?_eq_getElem?, hline]

end Measured

section Around

variable {xMin xMax : Float} {points : List Point}

/-- The window that fits points which are not level goes from a lowest to a higher one. -/
theorem exists_around_of_not_level (xMin xMax : Float) (hpoints : ∀ p ∈ points, isFinite p.y = true)
    (hlevel : ∃ p ∈ points, ∃ q ∈ points, (p.y == q.y) = false) :
    ∃ p ∈ points, ∃ q ∈ points, p.y < q.y ∧
      around xMin xMax points = ⟨xMin, xMax, p.y, q.y⟩ := by
  obtain ⟨r, hr, s, hs, hne⟩ := hlevel
  obtain ⟨p, hp, q, hq, hbetween, haround⟩ :=
    exists_around xMin xMax (List.ne_nil_of_mem hr) hpoints
  have hnumber {t : Point} (ht : t ∈ points) := isNumber_of_isFinite (hpoints t ht)
  have hlt : amount p.y < amount q.y := by
    refine (hbetween p hp).2.lt_of_ne fun heq => Bool.false_ne_true (hne.symm.trans ?_)
    -- All points are between the lowest and the highest one.
    have hr' := hbetween r hr
    have hs' := hbetween s hs
    exact beq_iff.2 ⟨hnumber hr, hnumber hs, by linarith⟩
  refine ⟨p, hp, q, hq, lt_iff.2 ⟨hnumber hp, hnumber hq, hlt⟩, ?_⟩
  rw [haround, if_neg fun h => hlt.ne (beq_iff.1 h).2.2]

end Around

/-- A window that is fitted to points within an interval shows all of them, unless it is too large.
The picture has a point in each of their cells. Unless the points are level, there is one in the
first line and one in the last. This goes for all grids the numbers of whose last column and row
stay as they are when they become doubles, as they do up to `2 ^ 53` columns and rows. -/
theorem draw_around (cfg : Settings) {xMin xMax : Float} (hxMin : isFinite xMin = true)
    (hxMax : isFinite xMax = true) (hlt : xMin < xMax) {points : List Point}
    (hpoints : ∀ p ∈ points, isFinite p.y = true ∧ xMin ≤ p.x ∧ p.x ≤ xMax) {w : Window}
    (hw : w = around xMin xMax points) (hwidth : isFinite (w.xMax - w.xMin) = true)
    (hheight : isFinite (w.yMax - w.yMin) = true) {cols rows : Int} (hcols : 1 ≤ cols)
    (hlastCol : IsExact (cols - 1)) (hrows : 1 ≤ rows) (hlastRow : IsExact (rows - 1)) :
    (∀ p ∈ points, w.contains p = true) ∧
    ∃ g, draw cfg points w (some rows) (some cols) = .ok g ∧ (g.lines.length : Int) = rows ∧
      (∀ line ∈ g.lines, (line.length : Int) = cols) ∧
      (∀ p ∈ points, ∃ col row, w.locate p cols rows = .ok (some (col, row)) ∧
        (0 ≤ col ∧ col < cols) ∧ (0 ≤ row ∧ row < rows) ∧
        ∃ line, g.lines[(rows - 1 - row).toNat]? = some line ∧
          line.toList[col.toNat]? = some '*') ∧
      ((∃ p ∈ points, ∃ q ∈ points, (p.y == q.y) = false) →
        ∃ first last, g.lines.head? = some first ∧ g.lines.getLast? = some last ∧
          '*' ∈ first.toList ∧ '*' ∈ last.toList) := by
  have hfinite : ∀ p ∈ points, isFinite p.y = true := fun p hp => (hpoints p hp).1
  have hle : xMin ≤ xMax := le_iff.2 ⟨(lt_iff.1 hlt).1, (lt_iff.1 hlt).2.1, (lt_iff.1 hlt).2.2.le⟩
  -- The ends of the window are finite even where it has room around level points.
  have hproper : w.Proper := hw ▸ proper_around hxMin hxMax hle hfinite
  have hmeasured : w.Measured :=
    ⟨hproper.xMin, hproper.xMax, hproper.yMin, hproper.yMax, hwidth, hheight⟩
  have hcontains : ∀ p ∈ points, w.contains p = true := fun p hp =>
    hw ▸ contains_around hfinite hp (hpoints p hp).2
  -- So every point has a cell in the grid, and the picture shows what is in its cells.
  have hdraw := draw_eq_grid cfg hproper.x_le hproper.y_le hrows hcols
    (fitting hmeasured hcols hlastCol hrows hlastRow points)
  have hsized := sized_grid (by omega : 0 ≤ cols) (by omega : 0 ≤ rows)
    (cellChar w points cols rows)
  refine ⟨hcontains, _, hdraw, ?_, fun line hline => ?_, fun p hp =>
    exists_mark hmeasured hcols hlastCol hrows hlastRow hp (hcontains p hp), fun hlevel => ?_⟩
  · rw [lines, List.length_map, List.length_reverse]
    exact hsized.rows
  · obtain ⟨row, hrow, rfl⟩ := List.mem_map.1 hline
    rw [String.length_ofList]
    exact hsized.cols row (List.mem_reverse.1 hrow)
  · -- A lowest and a highest point are on the two edges, which differ.
    obtain ⟨p, hp, q, hq, hpq, haround⟩ :=
      exists_around_of_not_level xMin xMax hfinite hlevel
    have hlow : p.y = w.yMin := by rw [hw, haround]
    have hhigh : q.y = w.yMax := by rw [hw, haround]
    obtain ⟨first, hfirst, hfirst'⟩ := exists_mark_first hmeasured hcols hlastCol hrows hlastRow
      hq (hcontains q hq) (hlow ▸ hhigh ▸ hpq) hhigh
    obtain ⟨last, hlast, hlast'⟩ := exists_mark_last hmeasured hcols hlastCol hrows hlastRow
      hp (hcontains p hp) hlow
    exact ⟨first, last, hfirst, hlast, hfirst', hlast'⟩

/-- Points at both zeros and one above them. -/
theorem draw_around_zeros :
    IsExact 4 ∧ IsExact 2 ∧ around 0 2 [⟨0, -0.0⟩, ⟨1, 3⟩, ⟨2, 0⟩] = ⟨0, 2, -0.0, 3⟩ ∧
      ∃ g first last,
        draw {} [⟨0, -0.0⟩, ⟨1, 3⟩, ⟨2, 0⟩] ⟨0, 2, -0.0, 3⟩ (some 3) (some 5) = .ok g ∧
        g.lines.head? = some first ∧ g.lines.getLast? = some last ∧
        '*' ∈ first.toList ∧ '*' ∈ last.toList := by
  have hlastCol : IsExact 4 := isExact_of_lt (by decide) (by decide)
  have hlastRow : IsExact 2 := isExact_of_lt (by decide) (by decide)
  have hw : around 0 2 [⟨0, -0.0⟩, ⟨1, 3⟩, ⟨2, 0⟩] = ⟨0, 2, -0.0, 3⟩ := by rfl
  have hpoints : ∀ p ∈ [(⟨0, -0.0⟩ : Point), ⟨1, 3⟩, ⟨2, 0⟩],
      isFinite p.y = true ∧ (0 : Float) ≤ p.x ∧ p.x ≤ 2 := by
    decide +kernel
  have hlt : (0 : Float) < 2 := by decide +kernel
  obtain ⟨-, g, hdraw, -, -, -, hedges⟩ := draw_around {} rfl rfl hlt hpoints hw.symm
    (by decide +kernel) (by decide +kernel) (by decide : (1 : Int) ≤ 5) hlastCol
    (by decide : (1 : Int) ≤ 3) hlastRow
  obtain ⟨first, last, h⟩ := hedges ⟨⟨0, -0.0⟩, by simp, ⟨1, 3⟩, by simp, by decide +kernel⟩
  exact ⟨hlastCol, hlastRow, hw, g, first, last, hdraw, h⟩

/-- Past `2 ^ 53` the number of the last column may become a larger one as a double. Then the point
on the right edge of its window is located past the last column, and there is no picture. -/
theorem draw_around_past_doubles :
    let p : Point := ⟨2, 5⟩
    let w := around 1 2 [p]
    (isFinite 1 = true ∧ isFinite 2 = true ∧ (1 : Float) < 2) ∧
      (isFinite p.y = true ∧ 1 ≤ p.x ∧ p.x ≤ 2) ∧
      (isFinite (w.xMax - w.xMin) = true ∧ isFinite (w.yMax - w.yMin) = true) ∧
      (1 : Int) ≤ 2 ^ 53 + 4 ∧
      w.locate p (2 ^ 53 + 4) 1 = .ok (some (2 ^ 53 + 4, 0)) ∧
      draw {} [p] w (some 1) (some (2 ^ 53 + 4)) = .error .columnOutside := by
  intro p w
  have hcell : w.locate p (2 ^ 53 + 4) 1 = .ok (some (2 ^ 53 + 4, 0)) := by decide +kernel
  -- Neither axis is in the window, so the picture is empty before the point is drawn.
  obtain ⟨g, hsized, haxes⟩ : ∃ g, Sized (2 ^ 53 + 4) 1 g ∧ axes w (2 ^ 53 + 4) 1 = .ok g :=
    ⟨_, sized_grid (by decide) (by decide) (axisChar none none none),
      axes_eq (locate_of_not_contains (by decide +kernel)) (if_neg (by decide +kernel))
        (if_neg (by decide +kernel))⟩
  have hplot : plotPoint w (2 ^ 53 + 4) 1 g p = .error .columnOutside := by
    rw [plotPoint, hcell]
    exact put_of_le hsized le_rfl (by decide) '*'
  refine ⟨by decide +kernel, by decide +kernel, by decide +kernel, by decide, hcell, ?_⟩
  change (axes w (2 ^ 53 + 4) 1 >>= fun g => [p].foldlM (plotPoint w (2 ^ 53 + 4) 1) g) = _
  rw [haxes]
  change List.foldlM (plotPoint w (2 ^ 53 + 4) 1) g [p] = _
  rw [List.foldlM_cons, hplot]
  rfl

end FormulaPlot.Picture
