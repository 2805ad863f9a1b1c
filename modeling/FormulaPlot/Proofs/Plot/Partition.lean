import FormulaPlot.Proofs.Plot.Sampling

/-!
# Samples as a partition

Every sample before the end of the interval is taken, and it is either a point or is skipped. The
sampling of a formula is that of its points at all positions before the end, in order, split into
those with a finite value and the others (`take_of_values`). If the formula has no value at some of
them, the first of these fails it (`take_of_fault`).

The loop stops at the first position at or past the end, and `Before` says which that is. Up to
there it goes along the positions as `List.mapM` does (`outcome_collect`).
-/

namespace FormulaPlot

namespace Samples

/-- The point of the sample with a number, whether or not its value is finite: its rounded position
and the value of the formula there. -/
def pointAt (cfg : Settings) (f : Formula) (xMin step : Float) (i : Nat) : Except Fault Point := do
  let x ← (position xMin step i).mapError .arithmetic
  let x ← (roundToPlaces cfg.sampleRoundingDigits x).mapError .arithmetic
  let y ← (f.evaluate cfg (.real x)).outcome.mapError .malformed
  return ⟨x, y⟩

/-- The points with finite values, and the number of the others. -/
def ofPoints (points : List Point) : Samples :=
  ⟨points.filter fun p => isFinite p.y, points.countP fun p => !isFinite p.y⟩

/-- Of `n` samples those with numbers below `k` are before the end of the interval. If there are
more, the one with the number `k` is not. -/
structure Before (xMin xMax step : Float) (n k : Nat) : Prop where
  le : k ≤ n
  before : ∀ i < k, ∃ x, position xMin step i = .ok x ∧ ¬ xMax ≤ x
  reached : k < n → ∃ x, position xMin step k = .ok x ∧ xMax ≤ x

/-- Each point is kept or counted. -/
theorem length_add_skipped (points : List Point) :
    (ofPoints points).points.length + (ofPoints points).skipped = points.length := by
  rw [ofPoints, ← List.countP_eq_length_filter]
  simpa using (List.length_eq_countP_add_countP (fun p : Point => isFinite p.y) (l := points)).symm

/-- What is collected when points are taken after those in `points`, the last one first, and the
`skipped` ones. -/
def joined (points : List Point) (skipped : Nat) (taken : List Point) : Samples :=
  ⟨points.reverse ++ (ofPoints taken).points, skipped + (ofPoints taken).skipped⟩

/-- A point with a finite value is kept. -/
theorem joined_of_finite {p : Point} (h : isFinite p.y = true) (points : List Point)
    (skipped : Nat) (taken : List Point) :
    joined (p :: points) skipped taken = joined points skipped (p :: taken) := by
  simp [joined, ofPoints, h]

/-- A point without a finite value is counted. -/
theorem joined_of_not_finite {p : Point} (h : ¬ isFinite p.y = true) (points : List Point)
    (skipped : Nat) (taken : List Point) :
    joined points (skipped + 1) taken = joined points skipped (p :: taken) := by
  simp [joined, ofPoints, h]
  omega

/-! ## Points in order -/

section Outcomes

variable {ε α β : Type} {f : α → Except ε β} {l : List α}

/-- Outcomes that are all values make up the list of these values. -/
theorem mapM_of_ok {g : α → β} (h : ∀ a ∈ l, f a = .ok (g a)) : l.mapM f = .ok (l.map g) := by
  induction l with
  | nil => rfl
  | cons a l ih =>
    rw [List.mapM_cons, h a List.mem_cons_self, ih fun b hb => h b (List.mem_cons_of_mem a hb)]
    rfl

/-- The first error among a list of outcomes is that of the list. -/
theorem mapM_of_error {u : List α} {a : α} {e : ε} (hu : ∀ b ∈ u, ∃ c, f b = .ok c)
    (ha : f a = .error e) (v : List α) : (u ++ a :: v).mapM f = .error e := by
  -- Only what stands before the error is looked at.
  induction u with
  | nil => rw [List.nil_append, List.mapM_cons, ha]; rfl
  | cons b u ih =>
    obtain ⟨c, hc⟩ := hu b List.mem_cons_self
    rw [List.cons_append, List.mapM_cons, hc, ih fun d hd => hu d (List.mem_cons_of_mem b hd)]
    rfl

/-- Outcomes that are not all values have a first error. -/
theorem exists_first_error {f : Nat → Except ε β} {k : Nat} (h : ¬ ∀ i < k, ∃ b, f i = .ok b) :
    ∃ i e, i < k ∧ (∀ j < i, ∃ b, f j = .ok b) ∧ f i = .error e := by
  classical
  push Not at h
  -- The least number that has no value is the first.
  obtain ⟨hk, hnone⟩ := Nat.find_spec h
  cases he : f (Nat.find h) with
  | ok b => exact absurd he (hnone b)
  | error e =>
    refine ⟨Nat.find h, e, hk, fun j hj => ?_, he⟩
    by_contra hj'
    exact Nat.find_min h hj ⟨hj.trans hk, not_exists.1 hj'⟩

end Outcomes

variable {cfg : Settings} {f : Formula} {xMin xMax step x : Float} {i k n : Nat}

/-- A point is a rounded position and a value there. -/
theorem pointAt_eq (hx : position xMin step i = .ok x) : pointAt cfg f xMin step i =
    ((roundToPlaces cfg.sampleRoundingDigits x).mapError .arithmetic >>= fun x =>
      (f.evaluate cfg (.real x)).outcome.mapError .malformed >>= fun y => pure ⟨x, y⟩) := by
  rw [pointAt, hx]
  rfl

/-- Without a point the formula has no value, unless the position cannot be rounded to places before
the decimal point. -/
theorem fault_of_pointAt {e : Fault} (hx : position xMin step i = .ok x)
    (h : pointAt cfg f xMin step i = .error e) :
    (∃ m, e = .malformed m) ∨ cfg.sampleRoundingDigits < 0 ∧ ∃ a, e = .arithmetic a := by
  rw [pointAt_eq hx] at h
  cases hround : roundToPlaces cfg.sampleRoundingDigits x with
  | error a =>
    rw [hround] at h
    refine .inr ⟨?_, a, (Except.error.inj h).symm⟩
    -- To places after the point every double can be rounded.
    by_contra h0
    obtain ⟨x', hx'⟩ := exists_roundToPlaces_of_nonneg (not_lt.1 h0) x
    rw [hx'] at hround
    cases hround
  | ok x' =>
    rw [hround] at h
    change (f.evaluate cfg (.real x')).outcome.mapError Fault.malformed >>= _ = _ at h
    cases hvalue : (f.evaluate cfg (.real x')).outcome with
    | error m =>
      rw [hvalue] at h
      exact .inl ⟨m, (Except.error.inj h).symm⟩
    | ok y =>
      rw [hvalue] at h
      cases h

/-- One sample gives the point of its number. -/
theorem outcome_one_eq (hx : position xMin step i = .ok x) :
    (one cfg f x).outcome = pointAt cfg f xMin step i := by
  rw [pointAt_eq hx, one]
  simp only [Noted.outcome_bind, Noted.outcome_ofExcept]
  congr 1
  funext x'
  refine congrArg (fun k => (f.evaluate cfg (.real x')).outcome.mapError Fault.malformed >>= k) ?_
  funext y
  -- The record of a sample that is skipped is no part of the outcome.
  split <;> rfl

/-- What is collected from the sample with number `i` on, where the next `k` are before the end. -/
theorem outcome_collect {notes : List Record} {points : List Point} {skipped count : Nat}
    (hle : k ≤ count) (hbefore : ∀ j < k, ∃ x, position xMin step (i + j) = .ok x ∧ ¬ xMax ≤ x)
    (hreached : k < count → ∃ x, position xMin step (i + k) = .ok x ∧ xMax ≤ x) :
    (collect (position xMin step) (one cfg f) xMax notes points skipped i count).outcome =
      ((List.range' i k).mapM (pointAt cfg f xMin step)).map (joined points skipped) := by
  induction count generalizing notes points skipped i k with
  | zero =>
    obtain rfl : k = 0 := by omega
    simp [collect, joined, ofPoints, Except.map, pure, Except.pure]
  | succ count ih =>
    rw [collect]
    cases k with
    | zero =>
      obtain ⟨x, hx, hend⟩ := hreached (Nat.succ_pos count)
      rw [Nat.add_zero] at hx
      rw [hx]
      simp [hend, joined, ofPoints, Except.map, pure, Except.pure]
    | succ k =>
      obtain ⟨x, hx, hend⟩ := hbefore 0 (Nat.succ_pos k)
      -- From the next sample on it is the same, whatever has been collected by then.
      have hrest (notes : List Record) (points : List Point) (skipped : Nat) :=
        @ih (i + 1) k notes points skipped (by omega)
          (fun j hj => by rw [Nat.add_right_comm]; exact hbefore (j + 1) (by omega))
          (fun hk => by rw [Nat.add_right_comm]; exact hreached (by omega))
      rw [Nat.add_zero] at hx
      rw [hx]
      simp only [if_neg hend]
      rw [outcome_one_eq hx, List.range'_succ, List.mapM_cons]
      cases pointAt cfg f xMin step i with
      | error e => rfl
      | ok p =>
        simp only
        by_cases hfinite : isFinite p.y = true
        · rw [if_pos hfinite, hrest]
          cases (List.range' (i + 1) k).mapM (pointAt cfg f xMin step) with
          | error e => rfl
          | ok taken => exact congrArg Except.ok (joined_of_finite hfinite points skipped taken)
        · rw [if_neg hfinite, hrest]
          cases (List.range' (i + 1) k).mapM (pointAt cfg f xMin step) with
          | error e => rfl
          | ok taken => exact congrArg Except.ok (joined_of_not_finite hfinite points skipped taken)

/-- Where every position is a double, the samples before the end are those up to a number. -/
theorem exists_before (h : ∀ i < n, ∃ x, position xMin step i = .ok x) :
    ∃ k, Before xMin xMax step n k := by
  induction n with
  | zero => exact ⟨0, le_rfl, by simp, by simp⟩
  | succ n ih =>
    obtain ⟨k, hle, hbefore, hreached⟩ := ih fun i hi => h i (by omega)
    rcases hle.lt_or_eq with hlt | rfl
    · exact ⟨k, by omega, hbefore, fun _ => hreached hlt⟩
    · -- All samples so far are before the end, and the next one is or is not.
      obtain ⟨x, hx⟩ := h k (by omega)
      by_cases hend : xMax ≤ x
      · exact ⟨k, by omega, hbefore, fun _ => ⟨x, hx, hend⟩⟩
      · refine ⟨k + 1, le_rfl, fun i hi => ?_, fun hk => absurd hk (lt_irrefl _)⟩
        rcases (Nat.lt_succ_iff.1 hi).lt_or_eq with hi | rfl
        · exact hbefore i hi
        · exact ⟨x, hx, hend⟩

/-! ## All samples -/

section Take

variable {steps : Option Int} {count : Float}

/-- Where the number of samples is a double, so is each of their positions. -/
theorem exists_position (hcount : floatOfInt (steps.getD cfg.defaultSamples) = .ok count)
    (hi : i < (steps.getD cfg.defaultSamples).toNat) : ∃ x, position xMin step i = .ok x := by
  obtain ⟨x, hx⟩ := exists_floatOfInt (m := i) hcount (by
    rw [abs_of_nonneg (by omega), abs_of_nonneg (by omega)]
    omega)
  exact ⟨_, position_eq_ok.2 ⟨x, hx, rfl⟩⟩

variable (hlt : xMin < xMax) (hpos : 0 < steps.getD cfg.defaultSamples)
  (hcount : floatOfInt (steps.getD cfg.defaultSamples) = .ok count)
  (hk : Before xMin xMax ((xMax - xMin) / count) (steps.getD cfg.defaultSamples).toNat k)
include hlt hpos hcount hk

/-- A sampling is that of the points before the end, in order. -/
theorem outcome_take :
    (take cfg f xMin xMax steps).outcome =
      ((List.range k).mapM (pointAt cfg f xMin ((xMax - xMin) / count))).map ofPoints := by
  have hbefore : ∀ j < k,
      ∃ x, position xMin ((xMax - xMin) / count) (0 + j) = .ok x ∧ ¬ xMax ≤ x := by
    simpa using hk.before
  have hreached : k < (steps.getD cfg.defaultSamples).toNat →
      ∃ x, position xMin ((xMax - xMin) / count) (0 + k) = .ok x ∧ xMax ≤ x := by
    simpa using hk.reached
  have hle := hk.le
  unfold take
  generalize steps.getD cfg.defaultSamples = n at *
  simp only
  rw [if_neg (by omega), if_pos hlt, hcount, Noted.outcome_bind_of_ok (a := count) rfl,
    outcome_collect hle hbefore hreached, List.range_eq_range']
  congr 1
  funext taken
  simp [joined]

/-- Where the formula has values at all positions before the end, these make up the sampling. -/
theorem take_of_values {p : Nat → Point}
    (hp : ∀ i < k, pointAt cfg f xMin ((xMax - xMin) / count) i = .ok (p i)) :
    (take cfg f xMin xMax steps).outcome = .ok (ofPoints ((List.range k).map p)) := by
  rw [outcome_take hlt hpos hcount hk, mapM_of_ok fun i hi => hp i (List.mem_range.1 hi)]
  rfl

/-- The first position before the end at which the formula has no value fails the sampling. -/
theorem take_of_fault {e : Fault} (hi : i < k)
    (hbefore : ∀ j < i, ∃ p, pointAt cfg f xMin ((xMax - xMin) / count) j = .ok p)
    (he : pointAt cfg f xMin ((xMax - xMin) / count) i = .error e) :
    (take cfg f xMin xMax steps).outcome = .error e := by
  obtain ⟨m, rfl⟩ : ∃ m, k = i + (m + 1) := ⟨k - (i + 1), by omega⟩
  -- The numbers before the fault, that of the fault, and the rest, which are not reached.
  have hsplit : List.range (i + (m + 1)) = List.range i ++ i :: List.range' (i + 1) m := by
    rw [List.range_eq_range', ← List.range'_append_1, Nat.zero_add, List.range'_succ,
      List.range_eq_range']
  rw [outcome_take hlt hpos hcount hk, hsplit,
    mapM_of_error (fun j hj => hbefore j (List.mem_range.1 hj)) he]
  rfl

end Take

end Samples

end FormulaPlot
