import FormulaPlot.Plot.Window
import FormulaPlot.Proofs.Number.Arithmetic
import FormulaPlot.Proofs.Number.Rounding

/-!
# Where points are in a window

A point in a window is located in a cell of every grid (`exists_locate`), unless it is so far above
the lower end of the window, or to the right of its start, that the distance overflows. Then the
height or the width overflows, too, the point is at the fraction NaN, and no cell is nearest to it
(`locate_of_overflow`).

The windows that pictures have are proper (`proper_around`, `proper_of_validate`): their ends are
finite and in order. One that is fitted to points shows them all (`contains_around`).
-/

namespace FormulaPlot

open Decimal

namespace Window

/-- The ends of a window are finite and in order. -/
structure Proper (w : Window) : Prop where
  xMin : isFinite w.xMin = true
  xMax : isFinite w.xMax = true
  yMin : isFinite w.yMin = true
  yMax : isFinite w.yMax = true
  x_le : w.xMin ≤ w.xMax
  y_le : w.yMin ≤ w.yMax

/-! ## Fractions -/

/-- The amount of zero. -/
theorem amount_zero : amount 0 = 0 := by
  have hshape : Shape.ofFloat 0 = .finite false 0 := rfl
  rw [amount, hshape]
  simp [Binary.units]

section Fractions

variable {low high v : Float} (hlow : isFinite low = true) (hhigh : isFinite high = true)
  (hv : isFinite v = true) (hlv : low ≤ v) (hvh : v ≤ high)

include hlow hhigh hv hlv hvh

/-- The distance from the lower end is no more than that between the ends. -/
theorem distance_le : 0 ≤ amount (v - low) ∧ amount (v - low) ≤ amount (high - low) := by
  have hlv := (le_iff.1 hlv).2.2
  have hvh := (le_iff.1 hvh).2.2
  exact ⟨(rounds_sub hv hlow).nonneg (by linarith),
    (rounds_sub hv hlow).le (rounds_sub hhigh hlow) (by linarith)⟩

/-- If the distance between the ends does not overflow, none inside does. -/
theorem isFinite_distance (hw : isFinite (high - low) = true) : isFinite (v - low) = true := by
  obtain ⟨hd0, hle⟩ := distance_le hlow hhigh hv hlv hvh
  exact (rounds_sub hv hlow).isNumber.isFinite_of_between (a := 0) rfl hw (by rwa [amount_zero]) hle

/-- The fraction at a finite distance from the lower end is between zero and one. -/
theorem fraction_bounds (hd : isFinite (v - low) = true) :
    isFinite (fraction low high v) = true ∧ 0 ≤ amount (fraction low high v) ∧
      amount (fraction low high v) ≤ unitsInOne := by
  have hone := unitsInOne_pos
  have hfinite : isFinite 1 = true := rfl
  obtain ⟨hd0, hle⟩ := distance_le hlow hhigh hv hlv hvh
  have hwidth := rounds_sub hhigh hlow
  have hzero : isFinite 0 = true := rfl
  rw [fraction]
  split
  next =>
    rw [amount_zero]
    exact ⟨hzero, le_rfl, hone.le⟩
  next hne =>
    have hpos : 0 < amount (high - low) := by
      refine (hd0.trans hle).lt_of_ne fun h => hne ?_
      exact beq_iff.2 ⟨hwidth.isNumber, isNumber_of_isFinite hzero, by rw [amount_zero, ← h]⟩
    -- A finite width gives a quotient of at most one, and an infinite one gives zero.
    by_cases hw : isFinite (high - low) = true
    · have hquot := rounds_div hd hw hpos.ne'
      rw [← cast_unitsInOne] at hquot
      have h0 : 0 ≤ amount (v - low) / amount (high - low) * unitsInOne := by positivity
      have h1 : amount (v - low) / amount (high - low) * unitsInOne ≤ amount 1 := by
        rw [amount_one]
        exact mul_le_of_le_one_left hone.le (div_le_one_of_le₀ hle hpos.le)
      have hle1 := hquot.le (rounds_amount hfinite) h1
      refine ⟨hquot.isNumber.isFinite_of_between hzero hfinite ?_ hle1, hquot.nonneg h0, ?_⟩
      · rw [amount_zero]
        exact hquot.nonneg h0
      · rwa [amount_one] at hle1
    · have hinf := hwidth.isNumber.ofFloat_eq_infinite hw hpos.le
      obtain ⟨hfraction, hamount⟩ := div_infinite hd hinf
      rw [hamount]
      exact ⟨hfraction, le_rfl, hone.le⟩

/-- The fraction at a distance that overflows is NaN. -/
theorem fraction_nan (hd : isFinite (v - low) ≠ true) :
    Shape.ofFloat (fraction low high v) = .nan := by
  obtain ⟨hd0, hle⟩ := distance_le hlow hhigh hv hlv hvh
  have hdist := rounds_sub hv hlow
  have hwidth := rounds_sub hhigh hlow
  -- The width is no shorter than the distance, so it is infinite as well.
  have hw : isFinite (high - low) ≠ true :=
    fun hw => hd (isFinite_distance hlow hhigh hv hlv hvh hw)
  have hinf := hdist.isNumber.ofFloat_eq_infinite hd hd0
  have hinf' := hwidth.isNumber.ofFloat_eq_infinite hw (hd0.trans hle)
  have hne : ¬ (high - low == 0) = true := by
    intro h
    have hzero : amount (high - low) = 0 := (beq_iff.1 h).2.2.trans amount_zero
    exact hw (isFinite_iff.2 ⟨hwidth.isNumber, by
      rw [hzero, abs_zero]
      exact_mod_cast Binary.units_pos (by decide)⟩)
  rw [fraction, if_neg hne]
  exact infinite_div_infinite hinf hinf'

end Fractions

/-! ## Cells -/

section Cells

variable {r : Float} {count i : Int}

/-- A fraction is in the cell to which its part of the last one is rounded. -/
theorem cell_eq_ok : cell r count = .ok i ↔
    ∃ last, floatOfInt (count - 1) = .ok last ∧ roundToInt (r * last) = .ok i := by
  rw [cell]
  cases floatOfInt (count - 1) with
  | error a => exact iff_of_false (fun h => by cases h) fun ⟨_, h, _⟩ => by cases h
  | ok last => exact ⟨fun h => ⟨last, rfl, h⟩, fun ⟨_, hlast, h⟩ => Except.ok.inj hlast ▸ h⟩

/-- A fraction between zero and one is in a cell. -/
theorem exists_cell (h0 : 0 < count) (h1 : IsExact (count - 1)) (hr : isFinite r = true)
    (hr0 : 0 ≤ amount r) (hr1 : amount r ≤ unitsInOne) :
    ∃ i, cell r count = .ok i ∧ 0 ≤ i ∧ i < count := by
  have hone := unitsInOne_pos
  obtain ⟨last, hlast, hamount⟩ := h1
  have hfinite := (rounds_floatOfInt hlast).1
  have hlast0 : 0 ≤ amount last := by
    rw [hamount]
    exact mul_nonneg (by exact_mod_cast (by omega : 0 ≤ count - 1)) hone.le
  have hprod := rounds_mul hr hfinite
  have hprod0 : 0 ≤ amount r * amount last / 2 ^ 1074 :=
    div_nonneg (mul_nonneg hr0 hlast0) (by positivity)
  -- The part of the last number is between zero and that number, also when it is rounded.
  have hle := hprod.le (rounds_amount hfinite) <| by
    rw [← cast_unitsInOne, div_le_iff₀ hone, mul_comm]
    exact mul_le_mul_of_nonneg_left hr1 hlast0
  have hge := hprod.nonneg hprod0
  obtain ⟨i, hi, hi0, hi1⟩ := roundToInt_between
    (hprod.isNumber.isFinite_of_between (a := 0) rfl hfinite (by rwa [amount_zero]) hle)
    (a := 0) (b := count - 1) (by rwa [Int.cast_zero, zero_mul]) (by rwa [← hamount])
  exact ⟨i, cell_eq_ok.2 ⟨last, hlast, hi⟩, hi0, by omega⟩

/-- The fraction NaN is in no cell. -/
theorem cell_nan (h1 : IsExact (count - 1)) (hr : Shape.ofFloat r = .nan) :
    cell r count = .error .roundedNaN := by
  obtain ⟨last, hlast, -⟩ := h1
  rw [cell, hlast]
  exact roundToInt_nan (nan_mul hr)

end Cells

section Locate

variable {w : Window} {p : Point} {cols rows : Int}

/-- A point in a window is between its ends. -/
theorem contains_iff : w.contains p = true ↔
    w.xMin ≤ p.x ∧ p.x ≤ w.xMax ∧ w.yMin ≤ p.y ∧ p.y ≤ w.yMax := by
  rw [contains]
  simp only [Bool.and_eq_true, decide_eq_true_iff, and_assoc]

/-- The coordinates of a point in a proper window are finite. -/
theorem Proper.isFinite_of_contains (hw : w.Proper) (hp : w.contains p = true) :
    isFinite p.x = true ∧ isFinite p.y = true := by
  obtain ⟨h1, h2, h3, h4⟩ := contains_iff.1 hp
  have h1 := le_iff.1 h1
  have h3 := le_iff.1 h3
  exact ⟨h1.2.1.isFinite_of_between hw.xMin hw.xMax h1.2.2 (le_iff.1 h2).2.2,
    h3.2.1.isFinite_of_between hw.yMin hw.yMax h3.2.2 (le_iff.1 h4).2.2⟩

/-- A point outside a window has no cell. -/
theorem locate_of_not_contains (hp : w.contains p ≠ true) : w.locate p cols rows = .ok none :=
  if_neg hp

/-- The cell of a point in a window is that of its fractions. -/
theorem locate_of_contains (hp : w.contains p = true) : w.locate p cols rows = (do
    let col ← cell (fraction w.xMin w.xMax p.x) cols
    let row ← cell (fraction w.yMin w.yMax p.y) rows
    return some (col, row)) :=
  if_pos hp

/-- Only a point outside a window has no cell. -/
theorem locate_eq_none_iff : w.locate p cols rows = .ok none ↔ w.contains p ≠ true := by
  refine ⟨fun h hp => ?_, locate_of_not_contains⟩
  rw [locate_of_contains hp] at h
  cases hcol : cell (fraction w.xMin w.xMax p.x) cols with
  | error a => rw [hcol] at h; cases h
  | ok col =>
    cases hrow : cell (fraction w.yMin w.yMax p.y) rows with
    | error a => rw [hcol, hrow] at h; cases h
    | ok row => rw [hcol, hrow] at h; cases h

/-- A point is located in a cell if it is in the window and its fractions are in that cell. -/
theorem locate_eq_some_iff {c : Int × Int} : w.locate p cols rows = .ok (some c) ↔
    w.contains p = true ∧ cell (fraction w.xMin w.xMax p.x) cols = .ok c.1 ∧
      cell (fraction w.yMin w.yMax p.y) rows = .ok c.2 := by
  by_cases hp : w.contains p = true
  · rw [locate_of_contains hp, and_iff_right hp]
    cases cell (fraction w.xMin w.xMax p.x) cols with
    | error a => exact iff_of_false (fun h => by cases h) fun h => by cases h.1
    | ok col =>
      cases cell (fraction w.yMin w.yMax p.y) rows with
      | error a => exact iff_of_false (fun h => by cases h) fun h => by cases h.2
      | ok row =>
        refine ⟨fun h => ?_, fun h => ?_⟩
        · cases h
          exact ⟨rfl, rfl⟩
        · rw [Except.ok.inj h.1, Except.ok.inj h.2]
          rfl
  · rw [locate_of_not_contains hp]
    exact iff_of_false (fun h => by cases h) fun h => hp h.1

variable (hc0 : 0 < cols) (hc1 : IsExact (cols - 1)) (hr0 : 0 < rows) (hr1 : IsExact (rows - 1))

include hc0 hc1 hr0 hr1

/-- A point in a window has a cell if its distances from the lower ends do not overflow. -/
theorem exists_locate (hw : w.Proper) (hp : w.contains p = true)
    (hx : isFinite (p.x - w.xMin) = true) (hy : isFinite (p.y - w.yMin) = true) :
    ∃ col row, w.locate p cols rows = .ok (some (col, row)) ∧ (0 ≤ col ∧ col < cols) ∧
      0 ≤ row ∧ row < rows := by
  obtain ⟨hpx, hpy⟩ := hw.isFinite_of_contains hp
  obtain ⟨h1, h2, h3, h4⟩ := contains_iff.1 hp
  obtain ⟨hxf, hx0, hx1⟩ := fraction_bounds hw.xMin hw.xMax hpx h1 h2 hx
  obtain ⟨hyf, hy0, hy1⟩ := fraction_bounds hw.yMin hw.yMax hpy h3 h4 hy
  obtain ⟨col, hcol, hcol'⟩ := exists_cell hc0 hc1 hxf hx0 hx1
  obtain ⟨row, hrow, hrow'⟩ := exists_cell hr0 hr1 hyf hy0 hy1
  refine ⟨col, row, ?_, hcol', hrow'⟩
  rw [locate_of_contains hp, hcol, hrow]
  rfl

omit hr0 in
/-- A point in a window has no cell if its distance from the lower end overflows. -/
theorem locate_of_overflow (hw : w.Proper) (hp : w.contains p = true)
    (hx : isFinite (p.x - w.xMin) = true) (hy : isFinite (p.y - w.yMin) ≠ true) :
    w.locate p cols rows = .error .roundedNaN := by
  obtain ⟨hpx, hpy⟩ := hw.isFinite_of_contains hp
  obtain ⟨h1, h2, h3, h4⟩ := contains_iff.1 hp
  obtain ⟨hxf, hx0, hx1⟩ := fraction_bounds hw.xMin hw.xMax hpx h1 h2 hx
  obtain ⟨col, hcol, -⟩ := exists_cell hc0 hc1 hxf hx0 hx1
  have hrow := cell_nan hr1 (fraction_nan hw.yMin hw.yMax hpy h3 h4 hy)
  rw [locate_of_contains hp, hcol, hrow]
  rfl

end Locate

/-! ## Fitted windows -/

section Fitted

variable {xMin xMax y : Float} {ys : List Float} {points : List Point}

/-- Going over values and taking each that comes before the one kept so far ends with one of them,
and none comes before it. -/
theorem foldl_keep (before : Float → Float → Prop) [DecidableRel before] (key : Float → ℚ)
    (h : ∀ u ∈ y :: ys, ∀ v ∈ y :: ys, before v u ↔ key v < key u) :
    (ys.foldl (fun m v => if before v m then v else m) y) ∈ y :: ys ∧
      ∀ v ∈ y :: ys, key (ys.foldl (fun m v => if before v m then v else m) y) ≤ key v := by
  induction ys generalizing y with
  | nil => exact ⟨List.mem_cons_self, fun v hv => (List.mem_singleton.1 hv ▸ le_rfl)⟩
  | cons v ys ih =>
    have hv : v ∈ y :: v :: ys := List.mem_cons_of_mem y List.mem_cons_self
    have hbefore := h y List.mem_cons_self v hv
    rw [List.foldl_cons]
    -- What is kept of the first two values is no later than either of them.
    obtain ⟨k, hk, hkeep, hky, hkv⟩ : ∃ k, (if before v y then v else y) = k ∧
        k ∈ [y, v] ∧ key k ≤ key y ∧ key k ≤ key v := by
      by_cases hlt : before v y
      · exact ⟨v, if_pos hlt, by simp, (hbefore.1 hlt).le, le_rfl⟩
      · exact ⟨y, if_neg hlt, by simp, le_rfl, not_lt.1 fun hkey => hlt (hbefore.2 hkey)⟩
    have hsub : k :: ys ⊆ y :: v :: ys := by
      rcases List.mem_pair.1 hkeep with rfl | rfl
      · exact List.cons_subset_cons _ (List.subset_cons_self _ _)
      · exact List.subset_cons_self _ _
    obtain ⟨hmem, hle⟩ := ih fun u hu w hw => h u (hsub hu) w (hsub hw)
    rw [hk]
    refine ⟨hsub hmem, fun u hu => ?_⟩
    have hlek := hle k List.mem_cons_self
    rcases List.mem_cons.1 hu with rfl | hu
    · exact hlek.trans hky
    · rcases List.mem_cons.1 hu with rfl | hu
      · exact hlek.trans hkv
      · exact hle u (List.mem_cons_of_mem k hu)

section Extremes

variable (hys : ∀ v ∈ y :: ys, isFinite v = true)

include hys

/-- The least of finite values is one of them, and none is less. -/
theorem least_spec :
    least y ys ∈ y :: ys ∧ ∀ v ∈ y :: ys, amount (least y ys) ≤ amount v := by
  refine foldl_keep (fun v m => v < m) amount fun u hu v hv => ?_
  rw [lt_iff, and_iff_right (isNumber_of_isFinite (hys v hv)),
    and_iff_right (isNumber_of_isFinite (hys u hu))]

/-- The greatest of finite values is one of them, and none is greater. -/
theorem greatest_spec :
    greatest y ys ∈ y :: ys ∧ ∀ v ∈ y :: ys, amount v ≤ amount (greatest y ys) := by
  obtain ⟨hmem, hle⟩ := foldl_keep (fun v m => m < v) (fun v => -amount v)
    fun u hu v hv => by
      rw [lt_iff, and_iff_right (isNumber_of_isFinite (hys u hu)),
        and_iff_right (isNumber_of_isFinite (hys v hv)), neg_lt_neg_iff]
  exact ⟨hmem, fun v hv => neg_le_neg_iff.1 (hle v hv)⟩

end Extremes

/-- A window that fits points goes from a lowest one of them to a highest one, or to one below and
above where these are level. -/
theorem exists_around (xMin xMax : Float) (hne : points ≠ [])
    (hpoints : ∀ p ∈ points, isFinite p.y = true) :
    ∃ p ∈ points, ∃ q ∈ points,
      (∀ r ∈ points, amount p.y ≤ amount r.y ∧ amount r.y ≤ amount q.y) ∧
      around xMin xMax points =
        if p.y == q.y then ⟨xMin, xMax, p.y - 1, q.y + 1⟩ else ⟨xMin, xMax, p.y, q.y⟩ := by
  have hvalues : points.map Point.y ≠ [] := List.map_eq_nil_iff.not.2 hne
  obtain ⟨y, ys, hys⟩ := List.exists_cons_of_ne_nil hvalues
  have hfinite : ∀ v ∈ y :: ys, isFinite v = true := by
    rw [← hys]
    exact List.forall_mem_map.2 hpoints
  obtain ⟨hlow, hleast⟩ := least_spec hfinite
  obtain ⟨hhigh, hgreatest⟩ := greatest_spec hfinite
  rw [← hys] at hlow hhigh hleast hgreatest
  obtain ⟨p, hp, hpy⟩ := List.mem_map.1 hlow
  obtain ⟨q, hq, hqy⟩ := List.mem_map.1 hhigh
  refine ⟨p, hp, q, hq, fun r hr => ?_, ?_⟩
  · rw [hpy, hqy]
    exact ⟨hleast _ (List.mem_map_of_mem hr), hgreatest _ (List.mem_map_of_mem hr)⟩
  · rw [around, hys, hpy, hqy]

/-- There is room for one more below and above every finite double. -/
theorem isFinite_beside (hy : isFinite y = true) :
    isFinite (y - 1) = true ∧ isFinite (y + 1) = true := by
  have hone : isFinite 1 = true := rfl
  have hbelow := rounds_sub hy hone
  have habove := rounds_add hy hone
  rw [amount_one] at hbelow habove
  refine ⟨hbelow.isFinite_of_near hy ?_, habove.isFinite_of_near hy ?_⟩
  · rw [sub_sub_cancel, abs_of_pos unitsInOne_pos]
  · rw [sub_add_cancel_left, abs_neg, abs_of_pos unitsInOne_pos]

/-- One less is no more, and one more is no less, although both are rounded. -/
theorem le_beside {low high v : Float} (hlow : isFinite low = true) (hhigh : isFinite high = true)
    (hv : isFinite v = true) (hlv : amount low ≤ amount v) (hvh : amount v ≤ amount high) :
    low - 1 ≤ v ∧ v ≤ high + 1 := by
  have hone : isFinite 1 = true := rfl
  have hpos := unitsInOne_pos
  have hbelow := rounds_sub hlow hone
  have habove := rounds_add hhigh hone
  have hself := rounds_amount hv
  rw [amount_one] at hbelow habove
  -- The value itself is a double, and rounding does not go past a double.
  exact ⟨le_iff.2 ⟨hbelow.isNumber, hself.isNumber, hbelow.le hself (by linarith)⟩,
    le_iff.2 ⟨hself.isNumber, habove.isNumber, hself.le habove (by linarith)⟩⟩

/-- A window that fits points shows those that are in its interval of `x`. -/
theorem contains_around (hpoints : ∀ p ∈ points, isFinite p.y = true) {r : Point} (hr : r ∈ points)
    (hx : xMin ≤ r.x ∧ r.x ≤ xMax) : (around xMin xMax points).contains r = true := by
  obtain ⟨p, hp, q, hq, hbetween, haround⟩ :=
    exists_around xMin xMax (List.ne_nil_of_mem hr) hpoints
  obtain ⟨hlow, hhigh⟩ := hbetween r hr
  rw [haround, contains_iff]
  split
  next =>
    obtain ⟨hbelow, habove⟩ := le_beside (hpoints p hp) (hpoints q hq) (hpoints r hr) hlow hhigh
    exact ⟨hx.1, hx.2, hbelow, habove⟩
  next =>
    have hnumber {r : Point} (hr : r ∈ points) := isNumber_of_isFinite (hpoints r hr)
    exact ⟨hx.1, hx.2, le_iff.2 ⟨hnumber hp, hnumber hr, hlow⟩,
      le_iff.2 ⟨hnumber hr, hnumber hq, hhigh⟩⟩

/-- A window that fits points with finite values is proper. -/
theorem proper_around (hmin : isFinite xMin = true) (hmax : isFinite xMax = true)
    (hle : xMin ≤ xMax) (hpoints : ∀ p ∈ points, isFinite p.y = true) :
    (around xMin xMax points).Proper := by
  -- Without points the window is the one around zero.
  rcases eq_or_ne points [] with rfl | hne
  · have hlow : isFinite (-1) = true := by decide +kernel
    have hlevel : (-1 : Float) ≤ 1 := by decide +kernel
    exact ⟨hmin, hmax, hlow, rfl, hle, hlevel⟩
  · obtain ⟨p, hp, q, hq, hbetween, haround⟩ := exists_around xMin xMax hne hpoints
    have hp' := hpoints p hp
    have hq' := hpoints q hq
    obtain ⟨-, hpq⟩ := hbetween p hp
    rw [haround]
    split
    next =>
      obtain ⟨hbelow, habove⟩ := le_beside hp' hq' hp' le_rfl hpq
      exact ⟨hmin, hmax, (isFinite_beside hp').1, (isFinite_beside hq').2, hle,
        le_iff.2 ⟨(le_iff.1 hbelow).1, (le_iff.1 habove).2.1,
          (le_iff.1 hbelow).2.2.trans (le_iff.1 habove).2.2⟩⟩
    next =>
      exact ⟨hmin, hmax, hp', hq', hle,
        le_iff.2 ⟨isNumber_of_isFinite hp', isNumber_of_isFinite hq', hpq⟩⟩

/-- A window with finite ends that is accepted is proper. -/
theorem proper_of_validate {w v : Window} (h : w.validate = .ok v) (hx : isFinite w.xMin = true)
    (hx' : isFinite w.xMax = true) (hy : isFinite w.yMin = true) (hy' : isFinite w.yMax = true) :
    v.Proper := by
  rw [validate] at h
  split at h
  next => cases h
  next hnot =>
    obtain rfl := Except.ok.inj h
    rw [not_or] at hnot
    -- The test is for ends in the wrong order, and finite doubles are in one of the two orders.
    have hle {a b : Float} (ha : isFinite a = true) (hb : isFinite b = true) (h : ¬ b < a) :
        a ≤ b := by
      rw [lt_iff, and_iff_right (isNumber_of_isFinite hb),
        and_iff_right (isNumber_of_isFinite ha)] at h
      exact le_iff.2 ⟨isNumber_of_isFinite ha, isNumber_of_isFinite hb, not_lt.1 h⟩
    exact ⟨hx, hx', hy, hy', hle hx hx' hnot.1, hle hy hy' hnot.2⟩

end Fitted

end Window

end FormulaPlot
