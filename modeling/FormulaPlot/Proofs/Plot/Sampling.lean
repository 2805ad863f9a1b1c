import FormulaPlot.Plot.Sampling
import FormulaPlot.Proofs.Engine.Limit
import FormulaPlot.Proofs.Number.Arithmetic
import FormulaPlot.Proofs.Number.Rounding

/-!
# Where samples are taken

The positions of samples are evenly spaced up to the rounding of doubles: they start at the start of
the interval and never go back (`position_mono`). Those that reach its end are not taken.

A sample is taken at its position rounded to places after the point, which need not be in the
interval, and positions that are close enough have the same one. `take_ordered` says what is left:
the points are in order between the rounded ends of the interval, and they differ where their
positions are more than a step of the rounding apart.
-/

namespace FormulaPlot

open Decimal

/-- Whether a double is followed by another at more than a step of rounding to places after the
point. -/
def Apart (places : Int) (x y : Float) : Prop := amount x + gridStep (-places) < amount y

/-- The formula has no value or the request is bad, which is what requests report. -/
def Fault.Reported (e : Fault) : Prop := (∃ m, e = .malformed m) ∨ ∃ m, e = .invalid m

namespace Samples

/-- A point with the number of its sample and the position of the sample before it was rounded. -/
structure Kept where
  number : Nat
  raw : Float
  point : Point

/-- The point is what a formula gives at the rounded position, and the position is before the end of
the interval. -/
structure Kept.Taken (cfg : Settings) (f : Formula) (xMin xMax step : Float) (k : Kept) : Prop where
  position : position xMin step k.number = .ok k.raw
  before : ¬ xMax ≤ k.raw
  rounded : roundToPlaces cfg.sampleRoundingDigits k.raw = .ok k.point.x
  value : ((f.evaluate cfg (.real k.point.x)).logged cfg).outcome = .ok k.point.y
  finite : isFinite k.point.y = true

section Runs

variable {cfg : Settings} {f : Formula} {xMin xMax step x : Float} {s : Samples} {i : Nat}

/-- A position is a number of steps from the start. -/
theorem position_eq_ok : position xMin step i = .ok x ↔
    ∃ k, floatOfInt i = .ok k ∧ xMin + k * step = x := by
  rw [position]
  cases floatOfInt i with
  | error e =>
    refine ⟨fun h => ?_, fun ⟨k, hk, _⟩ => ?_⟩
    · cases h
    · cases hk
  | ok k =>
    refine ⟨fun h => ⟨k, rfl, Except.ok.inj h⟩, fun ⟨_, hk, hx⟩ => ?_⟩
    cases hk
    exact congrArg Except.ok hx

/-- A sample is a value of the formula at its rounded position. -/
theorem outcome_one {p : Point} (h : (one cfg f x).outcome = .ok p) :
    roundToPlaces cfg.sampleRoundingDigits x = .ok p.x ∧
      ((f.evaluate cfg (.real p.x)).logged cfg).outcome = .ok p.y := by
  rw [one] at h
  cases hx : roundToPlaces cfg.sampleRoundingDigits x with
  | error e =>
    rw [hx, Noted.outcome_bind_of_error rfl] at h
    cases h
  | ok x' =>
    rw [hx, Noted.outcome_bind_of_ok (a := x') rfl] at h
    cases hy : ((f.evaluate cfg (.real x')).logged cfg).outcome with
    | error e =>
      rw [Noted.outcome_bind_of_error hy] at h
      cases h
    | ok y =>
      rw [Noted.outcome_bind_of_ok hy] at h
      have hp : (⟨x', y⟩ : Point) = p := by
        split at h <;> exact Except.ok.inj h
      subst hp
      exact ⟨rfl, hy⟩

/-- The points that are collected belong to samples with increasing numbers. -/
theorem exists_kept_of_collect {notes : List Record} {points : List Point} {skipped i count : Nat}
    (h : (collect (position xMin step) (one cfg f) xMax notes points skipped i count).outcome =
      .ok s) :
    ∃ kept : List Kept, s.points = points.reverse ++ kept.map Kept.point ∧
      (∀ k ∈ kept, k.Taken cfg f xMin xMax step ∧ i ≤ k.number ∧ k.number < i + count) ∧
      kept.Pairwise (·.number < ·.number) := by
  -- The loop goes on from whatever has been collected, so the induction is for all lists.
  induction count generalizing notes points skipped i with
  | zero =>
    obtain rfl := Except.ok.inj h
    exact ⟨[], by simp, by simp, .nil⟩
  | succ count ih =>
    -- It stops at a bad position, at the end of the interval and at a sample that fails.
    rw [collect] at h
    split at h
    next => cases h
    next x hx =>
      split at h
      next =>
        obtain rfl := Except.ok.inj h
        exact ⟨[], by simp, by simp, .nil⟩
      next hbefore =>
        simp only at h
        split at h
        next => cases h
        next p hone =>
          obtain ⟨hrounded, hvalue⟩ := outcome_one hone
          split at h
          next hfinite =>
            obtain ⟨kept, hpoints, hkept, hsorted⟩ := ih h
            refine ⟨⟨i, x, p⟩ :: kept, by simp [hpoints], fun k hk => ?_,
              .cons (fun k hk => (hkept k hk).2.1) hsorted⟩
            rcases List.mem_cons.1 hk with rfl | hk
            · exact ⟨⟨hx, hbefore, hrounded, hvalue, hfinite⟩, le_rfl, by simp⟩
            · obtain ⟨htaken, hlow, hhigh⟩ := hkept k hk
              exact ⟨htaken, by omega, by omega⟩
          next =>
            obtain ⟨kept, hpoints, hkept, hsorted⟩ := ih h
            -- A sample without a finite value is only counted.
            refine ⟨kept, hpoints, fun k hk => ?_, hsorted⟩
            obtain ⟨htaken, hlow, hhigh⟩ := hkept k hk
            exact ⟨htaken, by omega, by omega⟩

/-- The points of a sampling belong to samples with increasing numbers, all of them below the number
of samples that is asked for. -/
theorem exists_kept_of_take {steps : Option Int}
    (h : (take cfg f xMin xMax steps).outcome = .ok s) :
    xMin < xMax ∧ 0 < steps.getD cfg.defaultSamples ∧
      ∃ count, floatOfInt (steps.getD cfg.defaultSamples) = .ok count ∧
        ∃ kept : List Kept, s.points = kept.map Kept.point ∧
          (∀ k ∈ kept, k.Taken cfg f xMin xMax ((xMax - xMin) / count) ∧
            k.number < steps.getD cfg.defaultSamples) ∧
          kept.Pairwise (·.number < ·.number) := by
  unfold take at h
  generalize steps.getD cfg.defaultSamples = n at *
  simp only at h
  split at h
  next => cases h
  next hpos =>
    split at h
    next hlt =>
      cases hcount : floatOfInt n with
      | error a =>
        rw [hcount, Noted.outcome_bind_of_error (e := .arithmetic a) rfl] at h
        cases h
      | ok count =>
        rw [hcount, Noted.outcome_bind_of_ok (a := count) rfl] at h
        obtain ⟨kept, hpoints, hkept, hsorted⟩ := exists_kept_of_collect h
        refine ⟨hlt, by omega, count, rfl, kept, hpoints, fun k hk => ⟨(hkept k hk).1, ?_⟩, hsorted⟩
        have := (hkept k hk).2.2
        omega
    next => cases h

/-! ## Faults -/

/-- One sample fails only where the formula has no value. -/
theorem errs_one (h0 : 0 ≤ cfg.sampleRoundingDigits) (h1 : cfg.sampleRoundingDigits < 1074)
    (f : Formula) (x : Float) : (one cfg f x).Errs Fault.Reported := by
  obtain ⟨x', hx'⟩ := exists_roundToPlaces_ok h0 h1 x
  refine Noted.Errs.bind (Noted.errs_of_ok (a := x') (by rw [Noted.outcome_ofExcept, hx']; rfl))
    fun a _ => Noted.Errs.bind (fun e he => ?_) fun y _ => ?_
  · change (f.evaluate cfg (.real a)).outcome.mapError Fault.malformed = _ at he
    cases hvalue : (f.evaluate cfg (.real a)).outcome with
    | ok y => rw [hvalue] at he; cases he
    | error m =>
      rw [hvalue] at he
      exact .inl ⟨m, (Except.error.inj he).symm⟩
  · by_cases hfinite : isFinite y = true
    · exact Noted.errs_of_ok (congrArg Noted.outcome (if_pos hfinite))
    · exact Noted.errs_of_ok (congrArg Noted.outcome (if_neg hfinite))

/-- Where every position is a double, collecting fails only as a sample does. -/
theorem errs_collect {position : Nat → Except ArithmeticFault Float} {sample : Float → Logged Point}
    {P : Fault → Prop} (hsample : ∀ x, (sample x).Errs P) {notes : List Record}
    {points : List Point} {skipped i count : Nat}
    (hposition : ∀ j < i + count, ∃ x, position j = .ok x) :
    (collect position sample xMax notes points skipped i count).Errs P := by
  induction count generalizing notes points skipped i with
  | zero => exact Noted.errs_of_ok rfl
  | succ count ih =>
    obtain ⟨x, hx⟩ := hposition i (by omega)
    have hlater : ∀ j < i + 1 + count, ∃ x, position j = .ok x :=
      fun j hj => hposition j (by omega)
    rw [collect, hx]
    simp only
    split
    next => exact Noted.errs_of_ok rfl
    next =>
      split
      next e he =>
        intro e' he'
        obtain rfl := Except.error.inj he'
        exact hsample x e he
      next p hp =>
        split
        next => exact ih hlater
        next => exact ih hlater

/-- A sampling fails where the formula has no value, where the interval is empty or no samples are
asked for, and where their number is too large. -/
theorem errs_take (h0 : 0 ≤ cfg.sampleRoundingDigits) (h1 : cfg.sampleRoundingDigits < 1074)
    (f : Formula) (xMin xMax : Float) (steps : Option Int) :
    (take cfg f xMin xMax steps).Errs fun e => e.Reported ∨
      xMin < xMax ∧ 0 < steps.getD cfg.defaultSamples ∧
        ∃ a, floatOfInt (steps.getD cfg.defaultSamples) = .error a ∧ e = .arithmetic a := by
  unfold take
  generalize steps.getD cfg.defaultSamples = n
  simp only
  split
  next => exact fun e he => .inl (.inr ⟨_, (Except.error.inj he).symm⟩)
  next hpos =>
    split
    next hlt =>
      cases hn : floatOfInt n with
      | error a =>
        intro e he
        rw [Noted.outcome_bind_of_error (e := .arithmetic a) rfl] at he
        exact .inr ⟨hlt, by omega, a, rfl, (Except.error.inj he).symm⟩
      | ok count =>
        intro e he
        rw [Noted.outcome_bind_of_ok (a := count) rfl] at he
        -- The numbers of samples are smaller than their count, so they are doubles as well.
        refine .inl (errs_collect (errs_one h0 h1 f) (fun j hj => ?_) e he)
        obtain ⟨k, hk⟩ := exists_floatOfInt (m := j) hn (by
          rw [abs_of_nonneg (by omega), abs_of_nonneg (by omega)]
          omega)
        exact ⟨_, position_eq_ok.2 ⟨k, hk, rfl⟩⟩
    next => exact fun e he => .inl (.inr ⟨_, (Except.error.inj he).symm⟩)

/-- A number of samples that is too large is a fault. -/
theorem take_of_error {steps : Option Int} {a : ArithmeticFault}
    (hcount : floatOfInt (steps.getD cfg.defaultSamples) = .error a)
    (hpos : 0 < steps.getD cfg.defaultSamples) (hlt : xMin < xMax) :
    (take cfg f xMin xMax steps).outcome = .error (.arithmetic a) := by
  unfold take
  generalize steps.getD cfg.defaultSamples = n at *
  simp only
  rw [if_neg (by omega), if_pos hlt, hcount, Noted.outcome_bind_of_error rfl]

end Runs

/-! ## Positions -/

section Positions

variable {xMin xMax step x y : Float} {i j : Nat}

/-- An interval between finite doubles and a finite step that does not go back. -/
structure Spaced (xMin xMax step : Float) : Prop where
  start : isFinite xMin = true
  stop : isFinite xMax = true
  finite : isFinite step = true
  forward : 0 ≤ amount step

/-- The steps of an interval whose width does not overflow. -/
theorem spaced_of_width {n : Int} {count : Float} (hmin : isFinite xMin = true)
    (hmax : isFinite xMax = true) (hwidth : isFinite (xMax - xMin) = true) (hlt : xMin < xMax)
    (hcount : floatOfInt n = .ok count) (hn : 0 < n) :
    Spaced xMin xMax ((xMax - xMin) / count) := by
  have hone := unitsInOne_pos
  have hge := unitsInOne_le_amount hcount hn
  have hpos : 0 < amount count := hone.trans_le hge
  have hdiff : 0 ≤ amount (xMax - xMin) :=
    (rounds_sub hmax hmin).nonneg (sub_nonneg.2 (lt_iff.1 hlt).2.2.le)
  have hround := rounds_div hwidth (rounds_floatOfInt hcount).1 hpos.ne'
  rw [← cast_unitsInOne] at hround
  have hquot : 0 ≤ amount (xMax - xMin) / amount count * unitsInOne := by positivity
  -- The count is one at least, so a step is no longer than the interval.
  refine ⟨hmin, hmax, hround.isFinite_of_le (rounds_amount hwidth) hwidth ?_, hround.nonneg hquot⟩
  rw [abs_of_nonneg hquot, abs_of_nonneg hdiff, div_mul_eq_mul_div, div_le_iff₀ hpos]
  exact mul_le_mul_of_nonneg_left hge hdiff

namespace Spaced

variable (hspaced : Spaced xMin xMax step)
include hspaced

/-- A position before the end is a finite number of steps from the start. -/
theorem exists_offset (h : position xMin step i = .ok x) (hx : ¬ xMax ≤ x) :
    ∃ k, floatOfInt i = .ok k ∧ isFinite (k * step) = true ∧ 0 ≤ amount (k * step) ∧
      Rounds x (amount xMin + amount (k * step)) := by
  obtain ⟨hmin, hmax, hstep, h0⟩ := hspaced
  obtain ⟨k, hk, rfl⟩ := position_eq_ok.1 h
  obtain ⟨hfinite, hround⟩ := rounds_floatOfInt hk
  have hk0 : 0 ≤ amount k := hround.nonneg (by positivity)
  have hprod := rounds_mul hfinite hstep
  have hprod0 := hprod.nonneg (div_nonneg (mul_nonneg hk0 h0) (by positivity))
  by_cases hoffset : isFinite (k * step) = true
  · exact ⟨k, hk, hoffset, hprod0, rounds_add hmin hoffset⟩
  · -- An infinite offset goes past the end.
    have hinf := hprod.isNumber.ofFloat_eq_infinite hoffset hprod0
    exact absurd (le_of_ofFloat_eq_infinite (add_infinite hmin hinf) hmax) hx

/-- A position before the end is finite and no sooner than the start. -/
theorem position_bounds (h : position xMin step i = .ok x) (hx : ¬ xMax ≤ x) :
    isFinite x = true ∧ xMin ≤ x ∧ x < xMax := by
  obtain ⟨k, -, -, h0, hround⟩ := hspaced.exists_offset h hx
  obtain ⟨hmin, hmax, -, -⟩ := hspaced
  have hlow : amount xMin ≤ amount x := (rounds_amount hmin).le hround (by linarith)
  have hhigh : amount x < amount xMax := by
    by_contra hge
    exact hx (le_iff.2 ⟨isNumber_of_isFinite hmax, hround.isNumber, not_lt.1 hge⟩)
  exact ⟨hround.isNumber.isFinite_of_between hmin hmax hlow hhigh.le,
    le_iff.2 ⟨isNumber_of_isFinite hmin, hround.isNumber, hlow⟩,
    lt_iff.2 ⟨hround.isNumber, isNumber_of_isFinite hmax, hhigh⟩⟩

/-- Later positions before the end are no sooner. -/
theorem position_mono (hij : i ≤ j) (hx : position xMin step i = .ok x)
    (hy : position xMin step j = .ok y) (hxb : ¬ xMax ≤ x) (hyb : ¬ xMax ≤ y) : x ≤ y := by
  obtain ⟨k, hk, -, -, hxr⟩ := hspaced.exists_offset hx hxb
  obtain ⟨l, hl, -, -, hyr⟩ := hspaced.exists_offset hy hyb
  obtain ⟨hkf, hkr⟩ := rounds_floatOfInt hk
  obtain ⟨hlf, hlr⟩ := rounds_floatOfInt hl
  -- The number, the offset and the position are each rounded, which keeps their order.
  have hkl : amount k ≤ amount l :=
    hkr.le hlr (mul_le_mul_of_nonneg_right (by exact_mod_cast hij) (Nat.cast_nonneg _))
  have hoffset : amount (k * step) ≤ amount (l * step) := by
    refine (rounds_mul hkf hspaced.finite).le (rounds_mul hlf hspaced.finite) ?_
    exact div_le_div_of_nonneg_right (mul_le_mul_of_nonneg_right hkl hspaced.forward)
      (by positivity)
  exact le_iff.2 ⟨hxr.isNumber, hyr.isNumber, hxr.le hyr (by linarith)⟩

end Spaced

/-- Where the width of the interval overflows, the only position before the end is NaN. -/
theorem position_nan_of_overflow {n : Int} {count : Float} (hmin : isFinite xMin = true)
    (hmax : isFinite xMax = true) (hwidth : isFinite (xMax - xMin) ≠ true) (hlt : xMin < xMax)
    (hcount : floatOfInt n = .ok count) (hn : 0 < n)
    (h : position xMin ((xMax - xMin) / count) i = .ok x) (hx : ¬ xMax ≤ x) :
    Shape.ofFloat x = .nan := by
  have hone := unitsInOne_pos
  have hround := rounds_sub hmax hmin
  have hinf := hround.isNumber.ofFloat_eq_infinite hwidth
    (hround.nonneg (sub_nonneg.2 (lt_iff.1 hlt).2.2.le))
  have hstep := infinite_div hinf (rounds_floatOfInt hcount).1
    (hone.trans_le (unitsInOne_le_amount hcount hn))
  obtain ⟨k, hk, rfl⟩ := position_eq_ok.1 h
  -- The width is infinite and so is a step. No steps are NaN, and any others go past the end.
  rcases Nat.eq_zero_or_pos i with rfl | hi
  · have hzero : floatOfInt (0 : Nat) = .ok 0 := by decide +kernel
    obtain rfl : 0 = k := Except.ok.inj (hzero.symm.trans hk)
    exact add_nan (zero_mul_infinite hstep)
  · have hoffset := mul_infinite (rounds_floatOfInt hk).1
      (hone.trans_le (unitsInOne_le_amount hk (by exact_mod_cast hi))) hstep
    exact absurd (le_of_ofFloat_eq_infinite (add_infinite hmin hoffset) hmax) hx

end Positions

/-- The points of a sampling have finite values. -/
theorem finite_of_take {cfg : Settings} {f : Formula} {xMin xMax : Float} {steps : Option Int}
    {s : Samples} (hs : (take cfg f xMin xMax steps).outcome = .ok s) :
    ∀ p ∈ s.points, isFinite p.y = true := by
  obtain ⟨-, -, count, -, kept, hpoints, hkept, -⟩ := exists_kept_of_take hs
  rw [hpoints]
  exact List.forall_mem_map.2 fun k hk => (hkept k hk).1.finite

/-- A sampling has a point whose position is a number only if the width of the interval does not
overflow. -/
theorem width_of_take {cfg : Settings} {f : Formula} {xMin xMax : Float} {steps : Option Int}
    {s : Samples} (hmin : isFinite xMin = true) (hmax : isFinite xMax = true)
    (hs : (take cfg f xMin xMax steps).outcome = .ok s) {p : Point} (hp : p ∈ s.points)
    (hx : IsNumber p.x) : isFinite (xMax - xMin) = true := by
  obtain ⟨hlt, hpos, count, hcount, kept, hpoints, hkept, -⟩ := exists_kept_of_take hs
  rw [hpoints] at hp
  obtain ⟨k, hk, rfl⟩ := List.mem_map.1 hp
  obtain ⟨⟨hposition, hbefore, hrounded, -, -⟩, -⟩ := hkept k hk
  by_contra hwidth
  have hnan := position_nan_of_overflow hmin hmax hwidth hlt hcount hpos hposition hbefore
  rw [roundToPlaces_nan hnan] at hrounded
  exact hx (Except.ok.inj hrounded ▸ hnan)

/-- The points of a sampling have finite positions exactly if the width of the interval does not
overflow. -/
theorem isFinite_x_iff {cfg : Settings} {f : Formula} {xMin xMax : Float} {steps : Option Int}
    {s : Samples} (hmin : isFinite xMin = true) (hmax : isFinite xMax = true)
    (hs : (take cfg f xMin xMax steps).outcome = .ok s) {p : Point} (hp : p ∈ s.points) :
    isFinite p.x = true ↔ isFinite (xMax - xMin) = true := by
  refine ⟨fun hx => width_of_take hmin hmax hs hp (isNumber_of_isFinite hx), fun hwidth => ?_⟩
  obtain ⟨hlt, hpos, count, hcount, kept, hpoints, hkept, -⟩ := exists_kept_of_take hs
  rw [hpoints] at hp
  obtain ⟨k, hk, rfl⟩ := List.mem_map.1 hp
  obtain ⟨htaken, -⟩ := hkept k hk
  have hspaced := spaced_of_width hmin hmax hwidth hlt hcount hpos
  exact isFinite_of_roundToPlaces (hspaced.position_bounds htaken.position htaken.before).1
    htaken.rounded

/-- The points of a sampling are in order. Each belongs to one of evenly spaced positions from the
start of the interval to before its end, and has the position rounded to the decimal places of the
settings for its `x`. So it is between the rounded ends of the interval. Two points have different
`x` if their positions are more than a step of the rounding apart, and a point that is as far from
the end is before the rounded end. -/
theorem take_ordered (cfg : Settings) (h0 : 0 ≤ cfg.sampleRoundingDigits)
    (h1 : cfg.sampleRoundingDigits < 1074) (f : Formula) {xMin xMax : Float}
    (hmin : isFinite xMin = true) (hmax : isFinite xMax = true)
    (hwidth : isFinite (xMax - xMin) = true) (steps : Option Int) {s : Samples}
    (hs : (take cfg f xMin xMax steps).outcome = .ok s) :
    ∃ low high count, roundToPlaces cfg.sampleRoundingDigits xMin = .ok low ∧
      roundToPlaces cfg.sampleRoundingDigits xMax = .ok high ∧
      floatOfInt (steps.getD cfg.defaultSamples) = .ok count ∧
      ∃ kept : List Kept, s.points = kept.map Kept.point ∧
        (∀ k ∈ kept, k.Taken cfg f xMin xMax ((xMax - xMin) / count) ∧
          k.number < steps.getD cfg.defaultSamples ∧ xMin ≤ k.raw ∧ k.raw < xMax ∧
          low ≤ k.point.x ∧ k.point.x ≤ high ∧
          (Apart cfg.sampleRoundingDigits k.raw xMax → k.point.x < high)) ∧
        kept.Pairwise fun k l => k.number < l.number ∧ k.raw ≤ l.raw ∧ k.point.x ≤ l.point.x ∧
          (Apart cfg.sampleRoundingDigits k.raw l.raw → k.point.x < l.point.x) := by
  obtain ⟨hlt, hpos, count, hcount, kept, hpoints, hkept, hsorted⟩ := exists_kept_of_take hs
  obtain ⟨low, hlow⟩ := exists_roundToPlaces_ok h0 h1 xMin
  obtain ⟨high, hhigh⟩ := exists_roundToPlaces_ok h0 h1 xMax
  have hspaced := spaced_of_width hmin hmax hwidth hlt hcount hpos
  -- Before they are rounded, the positions are in the interval.
  have hbounds (k : Kept) (hk : k ∈ kept) :
      isFinite k.raw = true ∧ xMin ≤ k.raw ∧ k.raw < xMax :=
    hspaced.position_bounds (hkept k hk).1.position (hkept k hk).1.before
  refine ⟨low, high, count, hlow, hhigh, hcount, kept, hpoints, fun k hk => ?_, ?_⟩
  · -- Rounding to places keeps order, so a rounded position is between the rounded ends.
    obtain ⟨htaken, hnumber⟩ := hkept k hk
    obtain ⟨hfinite, hge, hlt⟩ := hbounds k hk
    exact ⟨htaken, hnumber, hge, hlt,
      roundToPlaces_le h0 h1 hmin hfinite hlow htaken.rounded (le_iff.1 hge).2.2,
      roundToPlaces_le h0 h1 hfinite hmax htaken.rounded hhigh (lt_iff.1 hlt).2.2.le,
      roundToPlaces_lt h0 h1 hfinite hmax htaken.rounded hhigh⟩
  · -- The same for two points, by the order of their positions.
    refine hsorted.imp_of_mem fun {k l} hk hl hkl => ?_
    have hkt := (hkept k hk).1
    have hlt := (hkept l hl).1
    have hle := hspaced.position_mono hkl.le hkt.position hlt.position hkt.before hlt.before
    have hkf := (hbounds k hk).1
    have hlf := (hbounds l hl).1
    exact ⟨hkl, hle,
      roundToPlaces_le h0 h1 hkf hlf hkt.rounded hlt.rounded (le_iff.1 hle).2.2,
      roundToPlaces_lt h0 h1 hkf hlf hkt.rounded hlt.rounded⟩

/-- Three samples between zero and one, a third apart. -/
theorem take_ordered_thirds :
    (0 ≤ ({} : Settings).sampleRoundingDigits ∧ ({} : Settings).sampleRoundingDigits < 1074) ∧
      (isFinite 0 = true ∧ isFinite 1 = true ∧ isFinite (1 - 0) = true) ∧
      ∃ s, (take {} ⟨"x", 'x'⟩ 0 1 (some 3)).outcome = .ok s ∧
        s.points.map Point.x = [0, 0.33333, 0.66667] ∧
        ∃ kept : List Kept, s.points = kept.map Kept.point ∧
          (∀ k ∈ kept, 0 ≤ k.raw ∧ k.raw < 1) ∧
          kept.Pairwise fun k l => k.point.x ≤ l.point.x ∧
            (Apart 5 k.raw l.raw → k.point.x < l.point.x) := by
  obtain ⟨s, hs, hx⟩ := Option.map_eq_some_iff.1
    (show (take {} ⟨"x", 'x'⟩ 0 1 (some 3)).outcome.toOption.map (·.points.map Point.x) =
      some [0, 0.33333, 0.66667] by decide +kernel)
  have hs := toOption_eq_some.1 hs
  have hdigits : 0 ≤ ({} : Settings).sampleRoundingDigits := by decide
  have hdigits' : ({} : Settings).sampleRoundingDigits < 1074 := by decide
  have hmin : isFinite 0 = true := rfl
  have hmax : isFinite 1 = true := rfl
  have hwidth : isFinite (1 - 0) = true := by decide +kernel
  obtain ⟨low, high, count, -, -, -, kept, hpoints, hkept, hsorted⟩ :=
    take_ordered {} hdigits hdigits' ⟨"x", 'x'⟩ hmin hmax hwidth (some 3) hs
  exact ⟨⟨hdigits, hdigits'⟩, ⟨hmin, hmax, hwidth⟩, s, hs, hx, kept, hpoints,
    fun k hk => ⟨(hkept k hk).2.2.1, (hkept k hk).2.2.2.1⟩, hsorted.imp fun h => h.2.2⟩

/-- Rounding can take points out of the interval at either end, and lay two of them upon each other.
And where the width of the interval overflows, a point can be at no number. -/
theorem take_outside :
    ((isFinite 4e-6 = true ∧ isFinite 8e-6 = true ∧ (4e-6 : Float) < 8e-6) ∧
      ∃ s, (take {} ⟨"1", 'x'⟩ 4e-6 8e-6 (some 4)).outcome = .ok s ∧
        ¬ (∀ p ∈ s.points, 4e-6 ≤ p.x) ∧ ¬ (∀ p ∈ s.points, p.x < 8e-6) ∧
        ¬ s.points.Pairwise (·.x < ·.x)) ∧
    (isFinite (-1e308) = true ∧ isFinite 1e308 = true ∧ (-1e308 : Float) < 1e308) ∧
      ∃ s, (take {} ⟨"1", 'x'⟩ (-1e308) 1e308 (some 4)).outcome = .ok s ∧
        ¬ (∀ p ∈ s.points, -1e308 ≤ p.x) := by
  have hall (s : Samples) (q : Float → Prop) :
      (∀ p ∈ s.points, q p.x) ↔ ∀ x ∈ s.points.map Point.x, q x := List.forall_mem_map.symm
  have hsorted (s : Samples) :
      s.points.Pairwise (·.x < ·.x) ↔ (s.points.map Point.x).Pairwise (· < ·) :=
    List.pairwise_map.symm
  obtain ⟨s, hs, hx⟩ := Option.map_eq_some_iff.1
    (show (take {} ⟨"1", 'x'⟩ 4e-6 8e-6 (some 4)).outcome.toOption.map (·.points.map Point.x) =
      some [0, 0, 1e-5, 1e-5] by decide +kernel)
  obtain ⟨t, ht, hnan⟩ := Option.map_eq_some_iff.1
    (show (take {} ⟨"1", 'x'⟩ (-1e308) 1e308 (some 4)).outcome.toOption.map
      (·.points.map Point.x) = some [0 / 0] by decide +kernel)
  refine ⟨⟨by decide +kernel, s, toOption_eq_some.1 hs, ?_⟩, by decide +kernel, t,
    toOption_eq_some.1 ht, ?_⟩
  · rw [hall s (4e-6 ≤ ·), hall s (· < 8e-6), hsorted, hx]
    decide +kernel
  · rw [hall t (-1e308 ≤ ·), hnan]
    decide +kernel

end Samples

end FormulaPlot
