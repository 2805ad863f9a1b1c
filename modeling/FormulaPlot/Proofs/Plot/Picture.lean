import FormulaPlot.Plot.Picture
import FormulaPlot.Proofs.Plot.Window

/-!
# Pictures have room for their points

The axes of a proper window can always be drawn (`exists_axes`), and every cell in which a point is
located is in the picture (`exists_put`). So a picture is drawn unless the distance of a point in
the window from its lower end overflows (`exists_draw`), and then there is none
(`draw_of_overflow`).
-/

namespace FormulaPlot.Picture

open Window

/-- A grid with a number of rows and of columns. -/
structure Sized (cols rows : Int) (g : Picture) : Prop where
  rows : (g.length : Int) = rows
  cols : ∀ line ∈ g, (line.length : Int) = cols

/-- An index in a list is a place of its own. -/
theorem place?_of_lt {length : Nat} {i : Int} (h0 : 0 ≤ i) (h : i < length) :
    place? length i = some i.toNat := by
  have hneg : ¬ i < 0 := by omega
  rw [place?]
  simp only [if_neg hneg]
  exact if_pos ⟨h0, h⟩

/-- The row of a cell has a place for each column. -/
theorem Sized.length_getD {cols rows row : Int} {g : Picture} (hg : Sized cols rows g)
    (hrow : 0 ≤ row ∧ row < rows) : ((g.getD row.toNat []).length : Int) = cols := by
  have hlt : row.toNat < g.length := by have := hg.rows; omega
  rw [List.getD_eq_getElem g [] hlt]
  exact hg.cols _ (List.getElem_mem hlt)

/-- There is a place for every cell, and putting something there keeps the size. -/
theorem exists_put {cols rows col row : Int} {g : Picture} (hg : Sized cols rows g)
    (hcol : 0 ≤ col ∧ col < cols) (hrow : 0 ≤ row ∧ row < rows) (c : Char) :
    ∃ g', put g col row c = .ok g' ∧ Sized cols rows g' := by
  have hline := hg.length_getD hrow
  refine ⟨g.set row.toNat ((g.getD row.toNat []).set col.toNat c), ?_, ?_, ?_⟩
  · rw [put, place?_of_lt hrow.1 (by rw [hg.rows]; exact hrow.2)]
    simp only
    rw [place?_of_lt hcol.1 (by rw [hline]; exact hcol.2)]
  · rw [List.length_set]
    exact hg.rows
  · intro line hmem
    rcases List.mem_or_eq_of_mem_set hmem with h | rfl
    · exact hg.cols line h
    · rw [List.length_set]
      exact hline

/-- There is no place past the last column. -/
theorem put_of_le {cols rows col row : Int} {g : Picture} (hg : Sized cols rows g)
    (hcol : cols ≤ col) (hrow : 0 ≤ row ∧ row < rows) (c : Char) :
    put g col row c = .error .columnOutside := by
  have hline := hg.length_getD hrow
  have hplace : place? (g.getD row.toNat []).length col = none := by
    have hneg : ¬ col < 0 := by omega
    rw [place?]
    simp only [if_neg hneg]
    exact if_neg (by omega)
  rw [put, place?_of_lt hrow.1 (by rw [hg.rows]; exact hrow.2)]
  simp only
  rw [hplace]

/-! ## Grids -/

/-- The grid of the characters of a function of column and row. -/
def grid (cols rows : Int) (f : Int → Int → Char) : Picture :=
  (List.range rows.toNat).map fun (row : Nat) =>
    (List.range cols.toNat).map fun (col : Nat) => f col row

/-- A grid has its size. -/
theorem sized_grid {cols rows : Int} (hcols : 0 ≤ cols) (hrows : 0 ≤ rows) (f : Int → Int → Char) :
    Sized cols rows (grid cols rows f) := by
  constructor
  · rw [grid, List.length_map, List.length_range]
    omega
  · intro line hmem
    obtain ⟨row, -, rfl⟩ := List.mem_map.1 hmem
    rw [List.length_map, List.length_range]
    omega

/-- The axes are the grid of what they leave in each cell. -/
theorem axes_eq {w : Window} {cols rows : Int} {origin : Option (Int × Int)}
    {xAxis yAxis : Option Int} (horigin : w.locate ⟨0, 0⟩ cols rows = .ok origin)
    (hxAxis : (if w.yMin ≤ 0 ∧ 0 ≤ w.yMax then
      (axisCell w ⟨w.xMin, 0⟩ cols rows).map fun c => some c.2 else .ok none) = .ok xAxis)
    (hyAxis : (if w.xMin ≤ 0 ∧ 0 ≤ w.xMax then
      (axisCell w ⟨0, w.yMin⟩ cols rows).map fun c => some c.1 else .ok none) = .ok yAxis) :
    axes w cols rows = .ok (grid cols rows (axisChar origin xAxis yAxis)) := by
  -- The condition of an axis stands outside of what is done with its place.
  have hbind {c : Prop} [Decidable c] {x y : Except Fault (Option Int)} {a : Option Int}
      (h : (if c then x else y) = .ok a) (k : Option Int → Except Fault Picture) :
      (if c then x >>= k else y >>= k) = k a := by
    split at h <;> rename_i hc <;> rw [h]
    · exact if_pos hc
    · exact if_neg hc
  rw [axes, horigin]
  exact (hbind hxAxis _).trans (hbind hyAxis _)

section Window

variable {w : Window} {cols rows : Int} (hw : w.Proper) (hc0 : 0 < cols) (hc1 : IsExact (cols - 1))
  (hr0 : 0 < rows) (hr1 : IsExact (rows - 1))

include hw hc0 hc1 hr0 hr1

/-- A point on an edge or an axis has a cell if it is in the window, as its distances from the lower
ends do not overflow. -/
theorem exists_locate_axis {p : Point} (hp : w.contains p = true)
    (hx : p.x = w.xMin ∨ p.x = 0) (hy : p.y = w.yMin ∨ p.y = 0) :
    ∃ col row, w.locate p cols rows = .ok (some (col, row)) := by
  have hfinite {v low : Float} (hlow : isFinite low = true) (hv : v = low ∨ v = 0) :
      isFinite (v - low) = true := by
    have hzero : isFinite 0 = true := rfl
    -- The distance is zero or that of the end from zero, which does not overflow.
    rcases hv with rfl | rfl
    · refine (rounds_sub hlow hlow).isFinite_of_le (rounds_amount hlow) hlow ?_
      rw [sub_self, abs_zero]
      exact abs_nonneg _
    · refine (rounds_sub hzero hlow).isFinite_of_le (rounds_amount hlow) hlow ?_
      rw [amount_zero, zero_sub, abs_neg]
  obtain ⟨col, row, h, -⟩ := exists_locate hc0 hc1 hr0 hr1 hw hp (hfinite hw.xMin hx)
    (hfinite hw.yMin hy)
  exact ⟨col, row, h⟩

/-- An axis through the window ends in a cell. -/
theorem exists_axisCell {p : Point} (hp : w.contains p = true)
    (hx : p.x = w.xMin ∨ p.x = 0) (hy : p.y = w.yMin ∨ p.y = 0) :
    ∃ cell, axisCell w p cols rows = .ok cell := by
  obtain ⟨col, row, h⟩ := exists_locate_axis hw hc0 hc1 hr0 hr1 hp hx hy
  refine ⟨(col, row), ?_⟩
  rw [axisCell, h]
  rfl

/-- The axes of a proper window can be drawn. -/
theorem exists_axes : ∃ g, axes w cols rows = .ok g ∧ Sized cols rows g := by
  have hself {a : Float} (ha : isFinite a = true) : a ≤ a :=
    le_iff.2 ⟨isNumber_of_isFinite ha, isNumber_of_isFinite ha, le_rfl⟩
  -- The origin may be outside, and then it has no cell.
  obtain ⟨origin, horigin⟩ : ∃ origin, w.locate ⟨0, 0⟩ cols rows = .ok origin := by
    by_cases hp : w.contains ⟨0, 0⟩ = true
    · obtain ⟨col, row, h⟩ := exists_locate_axis hw hc0 hc1 hr0 hr1 hp (.inr rfl) (.inr rfl)
      exact ⟨_, h⟩
    · exact ⟨none, locate_of_not_contains hp⟩
  obtain ⟨xAxis, hxAxis⟩ : ∃ xAxis, (if w.yMin ≤ 0 ∧ 0 ≤ w.yMax then
      (axisCell w ⟨w.xMin, 0⟩ cols rows).map fun c => some c.2 else .ok none) = .ok xAxis := by
    -- An axis is looked for only if the window shows it, and then it has a cell.
    split
    next h =>
      obtain ⟨cell, hcell⟩ := exists_axisCell (p := ⟨w.xMin, 0⟩) hw hc0 hc1 hr0 hr1
        (contains_iff.2 ⟨hself hw.xMin, hw.x_le, h⟩) (.inl rfl) (.inr rfl)
      exact ⟨some cell.2, by rw [hcell]; rfl⟩
    next => exact ⟨none, rfl⟩
  obtain ⟨yAxis, hyAxis⟩ : ∃ yAxis, (if w.xMin ≤ 0 ∧ 0 ≤ w.xMax then
      (axisCell w ⟨0, w.yMin⟩ cols rows).map fun c => some c.1 else .ok none) = .ok yAxis := by
    split
    next h =>
      obtain ⟨cell, hcell⟩ := exists_axisCell (p := ⟨0, w.yMin⟩) hw hc0 hc1 hr0 hr1
        (contains_iff.2 ⟨h.1, h.2, hself hw.yMin, hw.y_le⟩) (.inr rfl) (.inl rfl)
      exact ⟨some cell.1, by rw [hcell]; rfl⟩
    next => exact ⟨none, rfl⟩
  exact ⟨_, axes_eq horigin hxAxis hyAxis, sized_grid hc0.le hr0.le _⟩

section Points

variable {g : Picture}

/-- A point is drawn if its distances from the lower ends do not overflow. -/
theorem exists_plotPoint {p : Point} (hg : Sized cols rows g)
    (hx : w.contains p = true → isFinite (p.x - w.xMin) = true)
    (hy : w.contains p = true → isFinite (p.y - w.yMin) = true) :
    ∃ g', plotPoint w cols rows g p = .ok g' ∧ Sized cols rows g' := by
  by_cases hp : w.contains p = true
  · obtain ⟨col, row, h, hcol, hrow⟩ := exists_locate hc0 hc1 hr0 hr1 hw hp (hx hp) (hy hp)
    obtain ⟨g', hput, hg'⟩ := exists_put hg hcol hrow '*'
    refine ⟨g', ?_, hg'⟩
    rw [plotPoint, h]
    exact hput
  · refine ⟨g, ?_, hg⟩
    rw [plotPoint, locate_of_not_contains hp]
    rfl

omit hr0 in
/-- A point is not drawn if its distance from the lower end overflows. -/
theorem plotPoint_of_overflow {p : Point} (hp : w.contains p = true)
    (hx : isFinite (p.x - w.xMin) = true) (hy : isFinite (p.y - w.yMin) ≠ true) :
    plotPoint w cols rows g p = .error (.arithmetic .roundedNaN) := by
  rw [plotPoint, locate_of_overflow hc0 hc1 hr1 hw hp hx hy]
  rfl

variable {points : List Point} (hg : Sized cols rows g)
  (hx : ∀ p ∈ points, w.contains p = true → isFinite (p.x - w.xMin) = true)

include hg hx

/-- Points are drawn if none of their distances from the lower ends overflows. -/
theorem exists_plotPoints
    (hy : ∀ p ∈ points, w.contains p = true → isFinite (p.y - w.yMin) = true) :
    ∃ g', points.foldlM (plotPoint w cols rows) g = .ok g' ∧ Sized cols rows g' := by
  induction points generalizing g with
  | nil => exact ⟨g, rfl, hg⟩
  | cons p points ih =>
    obtain ⟨g', hplot, hg'⟩ := exists_plotPoint hw hc0 hc1 hr0 hr1 hg
      (hx p List.mem_cons_self) (hy p List.mem_cons_self)
    rw [List.foldlM_cons, hplot]
    exact ih hg' (fun q hq => hx q (List.mem_cons_of_mem _ hq))
      fun q hq => hy q (List.mem_cons_of_mem _ hq)

/-- Points are not drawn if the distance of one of them from the lower end overflows. -/
theorem plotPoints_of_overflow
    (hy : ∃ p ∈ points, w.contains p = true ∧ isFinite (p.y - w.yMin) ≠ true) :
    points.foldlM (plotPoint w cols rows) g = .error (.arithmetic .roundedNaN) := by
  induction points generalizing g with
  | nil => simp at hy
  | cons p points ih =>
    rw [List.foldlM_cons]
    -- The first point that overflows fails the drawing, and those before it are drawn.
    by_cases hhead : w.contains p = true ∧ isFinite (p.y - w.yMin) ≠ true
    · rw [plotPoint_of_overflow hw hc0 hc1 hr1 hhead.1 (hx p List.mem_cons_self hhead.1)
        hhead.2]
      rfl
    · obtain ⟨g', hplot, hg'⟩ := exists_plotPoint hw hc0 hc1 hr0 hr1 hg
        (hx p List.mem_cons_self) fun hp => not_not.1 fun hfinite => hhead ⟨hp, hfinite⟩
      obtain ⟨q, hq, hoverflow⟩ := hy
      rw [hplot]
      refine ih hg' (fun q hq => hx q (List.mem_cons_of_mem _ hq)) ⟨q, ?_, hoverflow⟩
      exact (List.mem_cons.1 hq).resolve_left fun h => hhead (h ▸ hoverflow)

end Points

end Window

section Draw

/-- The number of the last of not too many cells stays as it is when it becomes a double. -/
theorem isExact_last {n : Int} (h : 0 < n ∧ n ≤ 2 ^ 53) : IsExact (n - 1) :=
  isExact_of_lt (by omega) (by omega)

variable (cfg : Settings) {w : Window} {points : List Point} (rows cols : Option Int)
  (hw : w.Proper) (hcols : 0 < size cols cfg.asciiCols ∧ size cols cfg.asciiCols ≤ 2 ^ 53)
  (hrows : 0 < size rows cfg.asciiRows ∧ size rows cfg.asciiRows ≤ 2 ^ 53)
  (hx : ∀ p ∈ points, w.contains p = true → isFinite (p.x - w.xMin) = true)

include hw hcols hrows hx

/-- A picture is drawn if no distance of a point in the window from its lower ends overflows. -/
theorem exists_draw (hy : ∀ p ∈ points, w.contains p = true → isFinite (p.y - w.yMin) = true) :
    ∃ g, draw cfg points w rows cols = .ok g ∧
      Sized (size cols cfg.asciiCols) (size rows cfg.asciiRows) g := by
  have hlastCol := isExact_last hcols
  have hlastRow := isExact_last hrows
  obtain ⟨g, haxes, hg⟩ := exists_axes hw hcols.1 hlastCol hrows.1 hlastRow
  rw [draw, haxes]
  exact exists_plotPoints hw hcols.1 hlastCol hrows.1 hlastRow hg hx hy

/-- No picture is drawn if such a distance overflows. -/
theorem draw_of_overflow
    (hy : ∃ p ∈ points, w.contains p = true ∧ isFinite (p.y - w.yMin) ≠ true) :
    draw cfg points w rows cols = .error (.arithmetic .roundedNaN) := by
  have hlastCol := isExact_last hcols
  have hlastRow := isExact_last hrows
  obtain ⟨g, haxes, hg⟩ := exists_axes hw hcols.1 hlastCol hrows.1 hlastRow
  rw [draw, haxes]
  exact plotPoints_of_overflow hw hcols.1 hlastCol hrows.1 hlastRow hg hx hy

end Draw

end FormulaPlot.Picture
