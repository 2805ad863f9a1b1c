import FormulaPlot.Proofs.Plot.Window

/-!
# The cells of points in order

A window is mapped onto the cells of a grid. Every point in it is located in a cell and no other
point is, points are located in the order of their coordinates, and the edges of the window go to
the edges of the grid (`locate_cells`).

The mapping has three steps, and each keeps order because correct rounding does: the distance from
the lower end, its fraction of the distance between the ends, and the nearest cell. The lower end is
at the fraction zero and the upper one at the fraction one (`amount_fraction_low`,
`amount_fraction_high`), without any error of rounding. So the last cell is met if its number is
not rounded either when it becomes a double (`IsExact`).
-/

namespace FormulaPlot.Window

open Decimal

/-! ## Fractions -/

section Fractions

variable {low high v v' : Float} (hlow : isFinite low = true) (hhigh : isFinite high = true)

include hlow hhigh

/-- The distance between two doubles is not rounded to zero. -/
theorem distance_pos (h : amount low < amount high) : 0 < amount (high - low) := by
  obtain ⟨s, b, hb, rfl⟩ := exists_bits_of_isFinite hlow
  obtain ⟨t, c, hc, rfl⟩ := exists_bits_of_isFinite hhigh
  have hunit : isFinite (Shape.floatOfBits false 1) = true := by decide +kernel
  have hamount : amount (Shape.floatOfBits false 1) = 1 := by
    rw [amount_floatOfBits (by decide), signedBy_false]
    exact_mod_cast (rfl : Binary.units 1 = 1)
  have hcast (s : Bool) (b : Nat) : signedBy s (Binary.units b) = withSign s (Binary.units b) := by
    cases s <;> simp
  -- Both amounts are whole numbers of units, so they are a unit apart at least.
  have hround := (rounds_amount hunit).le (rounds_sub hhigh hlow) <| by
    rw [amount_floatOfBits hb.le, amount_floatOfBits hc.le, hcast, hcast] at h ⊢
    rw [hamount, le_sub_iff_add_le, add_comm]
    exact_mod_cast Int.add_one_le_of_lt (by exact_mod_cast h)
  rw [hamount] at hround
  exact one_pos.trans_le hround

omit hlow hhigh

/-- Where there is no distance between the ends, every fraction is zero. -/
theorem fraction_of_level (hw : isFinite (high - low) = true) (h0 : amount (high - low) = 0) :
    fraction low high v = 0 :=
  if_pos (beq_iff.2 ⟨isNumber_of_isFinite hw, isNumber_of_isFinite rfl, h0.trans amount_zero.symm⟩)

/-- The fraction at a distance is the quotient rounded, unless there is no distance between the
ends. -/
theorem rounds_fraction (hw : isFinite (high - low) = true) (hd : isFinite (v - low) = true)
    (h0 : amount (high - low) ≠ 0) :
    Rounds (fraction low high v) (amount (v - low) / amount (high - low) * 2 ^ 1074) := by
  have hne : ¬ (high - low == 0) = true := fun h => h0 ((beq_iff.1 h).2.2.trans amount_zero)
  rw [fraction, if_neg hne]
  exact rounds_div hd hw h0

include hlow hhigh

variable (hw : isFinite (high - low) = true) (hv : isFinite v = true) (hlv : low ≤ v)
  (hvh : v ≤ high)

include hw hv hlv hvh

/-- Fractions are in the order of the values. -/
theorem fraction_le (hv' : isFinite v' = true) (hlv' : low ≤ v') (hvh' : v' ≤ high)
    (h : amount v ≤ amount v') :
    amount (fraction low high v) ≤ amount (fraction low high v') := by
  have hd := isFinite_distance hlow hhigh hv hlv hvh hw
  have hd' := isFinite_distance hlow hhigh hv' hlv' hvh' hw
  obtain ⟨hd0, hle⟩ := distance_le hlow hhigh hv hlv hvh
  by_cases h0 : amount (high - low) = 0
  · rw [fraction_of_level hw h0, fraction_of_level hw h0]
  · -- The larger distance is divided by the same width.
    refine (rounds_fraction hw hd h0).le (rounds_fraction hw hd' h0) ?_
    have hdist := (rounds_sub hv hlow).le (rounds_sub hv' hlow) (by linarith)
    have hwidth : 0 ≤ amount (high - low) := hd0.trans hle
    gcongr

/-- The fraction at the lower end is zero. -/
theorem amount_fraction_low (h : amount v = amount low) : amount (fraction low high v) = 0 := by
  have hzero : isFinite 0 = true := rfl
  have hd := isFinite_distance hlow hhigh hv hlv hvh hw
  have hdist : amount (v - low) = 0 := by
    have hround := rounds_sub hv hlow
    rw [h, sub_self, ← amount_zero] at hround
    exact (hround.amount_eq (rounds_amount hzero)).trans amount_zero
  -- Where the ends are level there is no quotient, and else it is zero, which is not rounded.
  by_cases h0 : amount (high - low) = 0
  · rw [fraction_of_level hw h0, amount_zero]
  · have hround := rounds_fraction hw hd h0
    rw [hdist, zero_div, zero_mul, ← amount_zero] at hround
    exact (hround.amount_eq (rounds_amount hzero)).trans amount_zero

/-- The fraction at the upper end is one. -/
theorem amount_fraction_high (h : amount v = amount high) (hlt : amount low < amount high) :
    amount (fraction low high v) = unitsInOne := by
  have hone : isFinite 1 = true := rfl
  have hd := isFinite_distance hlow hhigh hv hlv hvh hw
  have hpos := distance_pos hlow hhigh hlt
  -- The same difference is rounded twice, so it is divided by itself.
  have hdist : amount (v - low) = amount (high - low) := by
    have hround := rounds_sub hv hlow
    rw [h] at hround
    exact hround.amount_eq (rounds_sub hhigh hlow)
  have hround := rounds_fraction hw hd hpos.ne'
  rw [hdist, div_self hpos.ne', one_mul, ← cast_unitsInOne, ← amount_one] at hround
  exact (hround.amount_eq (rounds_amount hone)).trans amount_one

end Fractions

/-! ## Cells -/

section Cells

variable {r r' : Float} {count i j : Int}

/-- Cells are in the order of the fractions. -/
theorem cell_le (h0 : 0 < count) (hr : isFinite r = true) (hr' : isFinite r' = true)
    (h : amount r ≤ amount r') (hi : cell r count = .ok i) (hj : cell r' count = .ok j) :
    i ≤ j := by
  obtain ⟨last, hlast, hi⟩ := cell_eq_ok.1 hi
  obtain ⟨_, hlast', hj⟩ := cell_eq_ok.1 hj
  cases hlast.symm.trans hlast'
  have hround := rounds_floatOfInt hlast
  have hlast0 : 0 ≤ amount last := hround.2.nonneg <|
    mul_nonneg (by exact_mod_cast (by omega : 0 ≤ count - 1)) unitsInOne_pos.le
  refine roundToInt_le hi hj ((rounds_mul hr hround.1).le (rounds_mul hr' hround.1) ?_)
  gcongr

/-- The fraction zero is in the first cell. -/
theorem cell_zero (hr : isFinite r = true) (h : amount r = 0) (hi : cell r count = .ok i) :
    i = 0 := by
  obtain ⟨last, hlast, hi⟩ := cell_eq_ok.1 hi
  have hround := rounds_mul hr (rounds_floatOfInt hlast).1
  rw [h, zero_mul, zero_div, ← amount_zero] at hround
  refine roundToInt_eq hi ((hround.amount_eq (rounds_amount rfl)).trans ?_)
  rw [amount_zero, Int.cast_zero, zero_mul]

/-- The fraction one is in the last cell. -/
theorem cell_one (h1 : IsExact (count - 1)) (hr : isFinite r = true) (h : amount r = unitsInOne)
    (hi : cell r count = .ok i) : i = count - 1 := by
  obtain ⟨last, hlast, hamount⟩ := h1
  obtain ⟨_, hlast', hi⟩ := cell_eq_ok.1 hi
  cases hlast.symm.trans hlast'
  have hfinite := (rounds_floatOfInt hlast).1
  have hround := rounds_mul hr hfinite
  -- The product is the last number itself, which is a double, so it is not rounded.
  rw [h, cast_unitsInOne, mul_div_cancel_left₀ _ (by positivity)] at hround
  exact roundToInt_eq hi ((hround.amount_eq (rounds_amount hfinite)).trans hamount)

end Cells

/-! ## Cells of values -/

section Values

variable {low high v v' : Float} {count i j : Int} (hlow : isFinite low = true)
  (hhigh : isFinite high = true) (hw : isFinite (high - low) = true) (hlv : low ≤ v)
  (hvh : v ≤ high)

include hlow hhigh hlv hvh

/-- A value between finite ends is finite. -/
theorem isFinite_between : isFinite v = true :=
  (le_iff.1 hlv).2.1.isFinite_of_between hlow hhigh (le_iff.1 hlv).2.2 (le_iff.1 hvh).2.2

include hw

/-- The fraction of a value between ends that are not too far apart is finite. -/
theorem isFinite_fraction : isFinite (fraction low high v) = true :=
  have hv := isFinite_between hlow hhigh hlv hvh
  (fraction_bounds hlow hhigh hv hlv hvh (isFinite_distance hlow hhigh hv hlv hvh hw)).1

/-- Values are in cells in their order. -/
theorem cell_fraction_le (h0 : 0 < count) (hlv' : low ≤ v') (hvh' : v' ≤ high) (h : v ≤ v')
    (hi : cell (fraction low high v) count = .ok i)
    (hj : cell (fraction low high v') count = .ok j) : i ≤ j :=
  cell_le h0 (isFinite_fraction hlow hhigh hw hlv hvh) (isFinite_fraction hlow hhigh hw hlv' hvh')
    (fraction_le hlow hhigh hw (isFinite_between hlow hhigh hlv hvh) hlv hvh
      (isFinite_between hlow hhigh hlv' hvh') hlv' hvh' (le_iff.1 h).2.2) hi hj

/-- The lower end is in the first cell. -/
theorem cell_fraction_low (h : (v == low) = true) (hi : cell (fraction low high v) count = .ok i) :
    i = 0 :=
  cell_zero (isFinite_fraction hlow hhigh hw hlv hvh)
    (amount_fraction_low hlow hhigh hw (isFinite_between hlow hhigh hlv hvh) hlv hvh
      (beq_iff.1 h).2.2) hi

/-- The upper end is in the last cell, if it is above the lower one. -/
theorem cell_fraction_high (h1 : IsExact (count - 1)) (hlt : low < high) (h : (v == high) = true)
    (hi : cell (fraction low high v) count = .ok i) : i = count - 1 :=
  cell_one h1 (isFinite_fraction hlow hhigh hw hlv hvh)
    (amount_fraction_high hlow hhigh hw (isFinite_between hlow hhigh hlv hvh) hlv hvh
      (beq_iff.1 h).2.2 (lt_iff.1 hlt).2.2) hi

end Values

/-! ## Cells of points -/

/-- The ends of a window are finite and no farther apart than the largest double. -/
structure Measured (w : Window) : Prop where
  xMin : isFinite w.xMin = true
  xMax : isFinite w.xMax = true
  yMin : isFinite w.yMin = true
  yMax : isFinite w.yMax = true
  width : isFinite (w.xMax - w.xMin) = true
  height : isFinite (w.yMax - w.yMin) = true

/-- A measured window with a point in it is proper. -/
theorem Measured.proper {w : Window} {p : Point} (hw : w.Measured) (hp : w.contains p = true) :
    w.Proper := by
  obtain ⟨h1, h2, h3, h4⟩ := contains_iff.1 hp
  -- The point is a number between the ends, which puts them in order.
  have htrans {a v b : Float} (h : a ≤ v) (h' : v ≤ b) : a ≤ b :=
    le_iff.2 ⟨(le_iff.1 h).1, (le_iff.1 h').2.1, (le_iff.1 h).2.2.trans (le_iff.1 h').2.2⟩
  exact ⟨hw.xMin, hw.xMax, hw.yMin, hw.yMax, htrans h1 h2, htrans h3 h4⟩

/-- A point in a measured window has a cell. -/
theorem Measured.exists_locate {w : Window} {p : Point} {cols rows : Int} (hw : w.Measured)
    (hcols : 0 < cols) (hlastCol : IsExact (cols - 1)) (hrows : 0 < rows)
    (hlastRow : IsExact (rows - 1)) (hp : w.contains p = true) :
    ∃ col row, w.locate p cols rows = .ok (some (col, row)) ∧ (0 ≤ col ∧ col < cols) ∧
      0 ≤ row ∧ row < rows := by
  have hproper := hw.proper hp
  obtain ⟨hx, hy⟩ := hproper.isFinite_of_contains hp
  obtain ⟨h1, h2, h3, h4⟩ := contains_iff.1 hp
  exact Window.exists_locate hcols hlastCol hrows hlastRow hproper hp
    (isFinite_distance hw.xMin hw.xMax hx h1 h2 hw.width)
    (isFinite_distance hw.yMin hw.yMax hy h3 h4 hw.height)

/-- In a grid over a measured window the points without a cell are those outside of the window, one
with a coordinate NaN among them. Located points are in the order of their coordinates, and those on
the lower edges are in the first column or row. If the numbers of the last column and the last row
stay as they are when they become doubles, every point in the window is located in the grid, and
those on the upper edges of a window that is no line are in the last column or row. -/
theorem locate_cells {w : Window} (hw : w.Measured) {cols rows : Int} (hcols : 1 ≤ cols)
    (hrows : 1 ≤ rows) :
    (∀ p : Point, w.locate p cols rows = .ok none ↔
      ¬ (w.xMin ≤ p.x ∧ p.x ≤ w.xMax ∧ w.yMin ≤ p.y ∧ p.y ≤ w.yMax)) ∧
    (∀ p : Point, ¬ (IsNumber p.x ∧ IsNumber p.y) → w.locate p cols rows = .ok none) ∧
    (∀ (p q : Point) (c d : Int × Int), w.locate p cols rows = .ok (some c) →
      w.locate q cols rows = .ok (some d) →
      (p.x ≤ q.x → c.1 ≤ d.1) ∧ (p.y ≤ q.y → c.2 ≤ d.2)) ∧
    (∀ (p : Point) (c : Int × Int), w.locate p cols rows = .ok (some c) →
      ((p.x == w.xMin) = true → c.1 = 0) ∧ ((p.y == w.yMin) = true → c.2 = 0)) ∧
    (IsExact (cols - 1) → IsExact (rows - 1) →
      ∀ p : Point, w.xMin ≤ p.x ∧ p.x ≤ w.xMax ∧ w.yMin ≤ p.y ∧ p.y ≤ w.yMax →
        ∃ col row, w.locate p cols rows = .ok (some (col, row)) ∧
          (0 ≤ col ∧ col ≤ cols - 1) ∧ (0 ≤ row ∧ row ≤ rows - 1) ∧
          (w.xMin < w.xMax → (p.x == w.xMax) = true → col = cols - 1) ∧
          (w.yMin < w.yMax → (p.y == w.yMax) = true → row = rows - 1)) := by
  have hnone (p : Point) : w.locate p cols rows = .ok none ↔
      ¬ (w.xMin ≤ p.x ∧ p.x ≤ w.xMax ∧ w.yMin ≤ p.y ∧ p.y ≤ w.yMax) :=
    locate_eq_none_iff.trans (not_congr contains_iff)
  refine ⟨hnone, fun p hp => (hnone p).2 fun h => hp ?_, fun p q c d hc hd => ?_, fun p c hc => ?_,
    fun hlastCol hlastRow p hp => ?_⟩
  · -- A coordinate that is compared with an end is a number.
    exact ⟨(le_iff.1 h.1).2.1, (le_iff.1 h.2.2.1).2.1⟩
  · -- The column goes by the first coordinate alone, and the row by the second.
    obtain ⟨hp, hpx, hpy⟩ := locate_eq_some_iff.1 hc
    obtain ⟨hq, hqx, hqy⟩ := locate_eq_some_iff.1 hd
    obtain ⟨h1, h2, h3, h4⟩ := contains_iff.1 hp
    obtain ⟨h5, h6, h7, h8⟩ := contains_iff.1 hq
    exact ⟨fun h => cell_fraction_le hw.xMin hw.xMax hw.width h1 h2 hcols h5 h6 h hpx hqx,
      fun h => cell_fraction_le hw.yMin hw.yMax hw.height h3 h4 hrows h7 h8 h hpy hqy⟩
  · obtain ⟨hp, hpx, hpy⟩ := locate_eq_some_iff.1 hc
    obtain ⟨h1, h2, h3, h4⟩ := contains_iff.1 hp
    exact ⟨fun h => cell_fraction_low hw.xMin hw.xMax hw.width h1 h2 h hpx,
      fun h => cell_fraction_low hw.yMin hw.yMax hw.height h3 h4 h hpy⟩
  · obtain ⟨col, row, hc, hcol, hrow⟩ :=
      hw.exists_locate hcols hlastCol hrows hlastRow (contains_iff.2 hp)
    obtain ⟨-, hx, hy⟩ := locate_eq_some_iff.1 hc
    obtain ⟨h1, h2, h3, h4⟩ := hp
    exact ⟨col, row, hc, ⟨hcol.1, by omega⟩, ⟨hrow.1, by omega⟩,
      fun hlt h => cell_fraction_high hw.xMin hw.xMax hw.width h1 h2 hlastCol hlt h hx,
      fun hlt h => cell_fraction_high hw.yMin hw.yMax hw.height h3 h4 hlastRow hlt h hy⟩

/-- A point on the right edge, halfway between the only two rows. -/
theorem locate_cells_right :
    Measured ⟨-1, 1, 0, 3⟩ ∧ IsExact 3 ∧ IsExact 1 ∧
      ∃ row, locate ⟨-1, 1, 0, 3⟩ ⟨1, 1.5⟩ 4 2 = .ok (some (3, row)) ∧ 0 ≤ row ∧ row ≤ 1 := by
  have hw : Measured ⟨-1, 1, 0, 3⟩ := by constructor <;> decide +kernel
  have hlastCol : IsExact 3 := isExact_of_lt (by decide) (by decide)
  have hlastRow : IsExact 1 := isExact_of_lt (by decide) (by decide)
  obtain ⟨col, row, hc, -, hrow, hright, -⟩ :=
    (locate_cells hw (by decide : (1 : Int) ≤ 4) (by decide : (1 : Int) ≤ 2)).2.2.2.2 hlastCol
      hlastRow ⟨1, 1.5⟩ (by decide +kernel)
  obtain rfl := hright (by decide +kernel) (by decide +kernel)
  exact ⟨hw, hlastCol, hlastRow, row, hc, hrow⟩

end FormulaPlot.Window
