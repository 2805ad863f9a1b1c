import FormulaPlot.Proofs.Number.ReadBack
import FormulaPlot.Proofs.Number.Rounds

/-!
# Rounding to whole numbers and to places

`floatOfInt` and `Decimal.toFloat` round to the nearest double (`rounds_floatOfInt`,
`rounds_toFloat`), and `roundToInt` to a nearest whole number (`roundToInt_between`).

Rounding to places after the point rounds twice: to the nearest step of a decimal grid
(`NearestStep`), then to the double nearest to that. It always has an answer
(`exists_roundToPlaces`) and keeps order (`roundToPlaces_le`). Doubles more than a step apart keep
apart (`roundToPlaces_lt`): if two steps are rounded to the same double, it is halfway between them,
and so were both doubles, as no double is nearer to a step than the one to which it is rounded. But
halves go to even steps, and of two neighbours only one is even.
-/

namespace FormulaPlot

open Binary Decimal

/-! ## Whole numbers -/

/-- A quotient is rounded to the nearest double. -/
theorem rounds_floatOfRatio (s : Bool) (n : Nat) {d : Nat} (hd : 0 < d) :
    Rounds (floatOfRatio s n d) (signedBy s ((n : ℚ) * 2 ^ 1074 / d)) := by
  obtain ⟨bits, hratio, hreads⟩ := exists_floatOfRatio s n hd
  exact ⟨s, bits, _, hreads, rfl, hratio⟩

/-- A decimal is rounded to the nearest double. -/
theorem rounds_toFloat (s : Bool) (d : Decimal) : Rounds (d.toFloat s) (signedBy s d.inUnits) := by
  obtain ⟨bits, hread, hreads⟩ := d.exists_toFloat s
  exact ⟨s, bits, _, hreads, rfl, hread⟩

/-- A whole number is rounded to the nearest double. -/
theorem rounds_ratio_natAbs (n : Int) :
    Rounds (floatOfRatio (decide (n < 0)) n.natAbs 1) (n * unitsInOne) := by
  have hunits : (n * unitsInOne : ℚ) =
      signedBy (decide (n < 0)) ((n.natAbs : ℚ) * 2 ^ 1074 / (1 : Nat)) := by
    rw [Nat.cast_natAbs, unitsInOne, Nat.cast_one, div_one]
    push_cast
    rcases lt_or_ge n 0 with h | h
    · rw [decide_eq_true h, signedBy_true, abs_of_neg (by exact_mod_cast h), neg_mul, neg_neg]
    · rw [decide_eq_false (not_lt.2 h), signedBy_false, abs_of_nonneg (by exact_mod_cast h)]
  rw [hunits]
  exact rounds_floatOfRatio _ _ one_pos

/-- A whole number has a double if it is not rounded to infinity. -/
theorem floatOfInt_eq_ok {n : Int} {x : Float} : floatOfInt n = .ok x ↔
    isFinite x = true ∧ x = floatOfRatio (decide (n < 0)) n.natAbs 1 := by
  unfold floatOfInt
  generalize floatOfRatio (decide (n < 0)) n.natAbs 1 = y
  simp only
  split
  next h =>
    rw [Except.ok.injEq]
    constructor
    · rintro rfl
      exact ⟨h, rfl⟩
    · rintro ⟨-, rfl⟩
      rfl
  next h =>
    refine iff_of_false (fun h => by cases h) ?_
    rintro ⟨hx, rfl⟩
    exact h hx

/-- A whole number without a double is too large. -/
theorem eq_wholeTooLarge {n : Int} {a : ArithmeticFault} (h : floatOfInt n = .error a) :
    a = .wholeTooLarge := by
  unfold floatOfInt at h
  generalize floatOfRatio (decide (n < 0)) n.natAbs 1 = y at h
  simp only at h
  split at h
  next => cases h
  next => exact (Except.error.inj h).symm

/-- A whole number that is not too large is rounded to the nearest double. -/
theorem rounds_floatOfInt {n : Int} {x : Float} (h : floatOfInt n = .ok x) :
    isFinite x = true ∧ Rounds x (n * unitsInOne) := by
  obtain ⟨hfinite, rfl⟩ := floatOfInt_eq_ok.1 h
  exact ⟨hfinite, rounds_ratio_natAbs n⟩

/-- The amount of the double one. -/
theorem amount_one : amount 1 = unitsInOne := by
  have hshape : Shape.ofFloat 1 = .finite false (1023 * 2 ^ 52) := rfl
  have hunits : units (1023 * 2 ^ 52) = unitsInOne := by decide +kernel
  rw [amount, hshape, ← hunits]
  rfl

/-- A positive whole number is not rounded to less than one. -/
theorem unitsInOne_le_amount {n : Int} {x : Float} (h : floatOfInt n = .ok x) (hn : 0 < n) :
    (unitsInOne : ℚ) ≤ amount x := by
  have hone : isFinite 1 = true := rfl
  have hle := (rounds_amount hone).le (rounds_floatOfInt h).2 <| by
    rw [amount_one]
    exact le_mul_of_one_le_left (Nat.cast_nonneg _) (by exact_mod_cast hn)
  rwa [amount_one] at hle

/-- Whole numbers no larger than one that has a double have one. -/
theorem exists_floatOfInt {m n : Int} {y : Float} (h : floatOfInt n = .ok y) (hle : |m| ≤ |n|) :
    ∃ x, floatOfInt m = .ok x := by
  obtain ⟨hfinite, hy⟩ := rounds_floatOfInt h
  refine ⟨_, floatOfInt_eq_ok.2 ⟨(rounds_ratio_natAbs m).isFinite_of_le hy hfinite ?_, rfl⟩⟩
  rw [abs_mul, abs_mul]
  exact mul_le_mul_of_nonneg_right (by exact_mod_cast hle) (abs_nonneg _)

/-- Small whole numbers are magnitudes. -/
theorem exists_units_eq {m : Nat} (h : m < 2 ^ 53) :
    ∃ bits < infinityBits, units bits = m * unitsInOne := by
  rcases Nat.eq_zero_or_pos m with rfl | h0
  · exact ⟨0, by decide, by rw [Nat.zero_mul]; rfl⟩
  · have hinf : infinityBits = 2047 * 2 ^ 52 := rfl
    have hlog : m.log2 ≤ 52 := Nat.lt_succ_iff.1 ((Nat.log2_lt h0.ne').2 h)
    have hpos : 0 < 2 ^ (52 - m.log2) := by positivity
    -- With zeros behind it the number has all the bits of a mantissa.
    have hge : 2 ^ 52 ≤ m * 2 ^ (52 - m.log2) := by
      calc 2 ^ 52 = 2 ^ m.log2 * 2 ^ (52 - m.log2) := by rw [← pow_add]; congr 1; omega
        _ ≤ m * 2 ^ (52 - m.log2) := Nat.mul_le_mul_right _ (Nat.log2_self_le h0.ne')
    have hlt : m * 2 ^ (52 - m.log2) < 2 ^ 53 := by
      calc m * 2 ^ (52 - m.log2) < 2 ^ (m.log2 + 1) * 2 ^ (52 - m.log2) :=
            Nat.mul_lt_mul_of_pos_right Nat.lt_log2_self hpos
        _ = 2 ^ 53 := by rw [← pow_add]; congr 1; omega
    refine ⟨(1022 + m.log2) * 2 ^ 52 + m * 2 ^ (52 - m.log2), by omega, ?_⟩
    rw [units_block (.inr hge) hlt.le, Nat.mul_assoc, ← pow_add, unitsInOne,
      show 52 - m.log2 + (1022 + m.log2) = 1074 by omega]

/-- Small whole numbers are doubles. -/
theorem exists_floatOfInt_exact {n : Int} (h0 : 0 ≤ n) (h : n < 2 ^ 53) :
    ∃ x, floatOfInt n = .ok x ∧ isFinite x = true ∧ amount x = n * unitsInOne := by
  obtain ⟨m, rfl⟩ := Int.eq_ofNat_of_zero_le h0
  obtain ⟨bits, hb, hunits⟩ := exists_units_eq (m := m) (by omega)
  -- The number has a double of its own, so the division can only find that one.
  obtain ⟨b, hratio, hreads⟩ := exists_floatOfRatio false m one_pos
  have hexact : (m : ℚ) * 2 ^ 1074 / (1 : Nat) = units bits := by
    rw [hunits, Nat.cast_mul, cast_unitsInOne, Nat.cast_one, div_one]
  rw [hexact] at hreads
  rw [readsAs_unique hreads (readsAs_units bits), Nat.min_eq_right hb.le] at hratio
  have hfinite : isFinite (Shape.floatOfBits false bits) = true := by
    rw [isFinite_floatOfBits hb.le, decide_eq_true hb]
  refine ⟨_, floatOfInt_eq_ok.2 ⟨hfinite, ?_⟩, hfinite, ?_⟩
  · rw [decide_eq_false (by omega), Int.natAbs_natCast, hratio]
  · rw [amount_floatOfBits hb.le, signedBy_false, hunits, Nat.cast_mul, Int.cast_natCast]

/-- A whole number that stays as it is when it becomes a double. -/
def IsExact (n : Int) : Prop := ∃ x, floatOfInt n = .ok x ∧ amount x = n * unitsInOne

/-- Small whole numbers stay as they are. -/
theorem isExact_of_lt {n : Int} (h0 : 0 ≤ n) (h : n < 2 ^ 53) : IsExact n := by
  obtain ⟨x, hx, -, hamount⟩ := exists_floatOfInt_exact h0 h
  exact ⟨x, hx, hamount⟩

/-- NaN is rounded to no whole number. -/
theorem roundToInt_nan {x : Float} (h : Shape.ofFloat x = .nan) :
    roundToInt x = .error .roundedNaN := by
  rw [roundToInt, h]

/-! ## The neighbourhood of finite doubles -/

/-- What is at most one away from a finite double is rounded to a finite one. -/
theorem Rounds.isFinite_of_near {x y : Float} {q : ℚ} (hx : Rounds x q) (hy : isFinite y = true)
    (h : |amount y - q| ≤ unitsInOne) : isFinite x = true := by
  have hnearest := hx.nearest hy
  refine isFinite_iff.2 ⟨hx.isNumber, ?_⟩
  -- The largest finite double is farther from infinity than two.
  have hgap : units (infinityBits - 1) + unitsInOne * 2 < units infinityBits := by decide +kernel
  have hgap' : (units (infinityBits - 1) + unitsInOne * 2 : ℚ) < units infinityBits := by
    exact_mod_cast hgap
  have hlargest : |amount y| ≤ units (infinityBits - 1) := by
    obtain ⟨s, bits, hb, rfl⟩ := exists_bits_of_isFinite hy
    rw [amount_floatOfBits hb.le, abs_signedBy s (Nat.cast_nonneg _)]
    exact_mod_cast units_strictMono.monotone (Nat.le_sub_one_of_lt hb)
  calc |amount x| ≤ |amount y| + |amount x - amount y| := by
        linarith [abs_sub_abs_le_abs_sub (amount x) (amount y)]
    _ ≤ |amount y| + (|amount x - q| + |q - amount y|) :=
        add_le_add_right (abs_sub_le _ _ _) _
    _ < units infinityBits := by
        rw [abs_sub_comm q]
        linarith

/-! ## Steps of a grid -/

/-- The number of steps in a grid that is nearest to an amount, the even one of two. -/
structure NearestStep (step q : ℚ) (m : Int) : Prop where
  near : |q - m * step| ≤ step / 2
  nearer : m % 2 = 1 → |q - m * step| < step / 2

namespace NearestStep

variable {step q r : ℚ} {m n : Int}

/-- Nearest steps are in the order of the amounts. -/
theorem le (hm : NearestStep step q m) (hn : NearestStep step r n) (hstep : 0 < step) (h : q ≤ r) :
    m ≤ n := by
  by_contra hlt
  have hsucc : ((n + 1 : Int) : ℚ) * step ≤ m * step := by
    refine mul_le_mul_of_nonneg_right ?_ hstep.le
    exact_mod_cast (by omega : n + 1 ≤ m)
  push_cast at hsucc
  have hm' := abs_le.1 hm.near
  have hn' := abs_le.1 hn.near
  -- Both amounts are halfway between two steps, which are neighbours.
  have hnext : m = n + 1 := by
    have : (m : ℚ) * step = (n + 1 : Int) * step := by push_cast; linarith
    exact_mod_cast mul_right_cancel₀ hstep.ne' this
  rcases Int.emod_two_eq_zero_or_one n with hpar | hpar
  · have := abs_lt.1 (hm.nearer (by omega))
    linarith
  · have := abs_lt.1 (hn.nearer hpar)
    linarith

/-- Amounts more than a step apart have different nearest steps. -/
theorem lt (hm : NearestStep step q m) (hn : NearestStep step r n) (hstep : 0 < step)
    (h : q + step < r) : m < n := by
  have hm' := abs_le.1 hm.near
  have hn' := abs_le.1 hn.near
  have hlt : (m : ℚ) * step < n * step := by linarith
  exact_mod_cast lt_of_mul_lt_mul_right hlt hstep.le

/-- The negative. -/
theorem neg (h : NearestStep step q m) : NearestStep step (-q) (-m) := by
  have habs : |-q - ((-m : Int) : ℚ) * step| = |q - m * step| := by
    rw [Int.cast_neg, neg_mul, neg_sub_neg, abs_sub_comm]
  exact ⟨habs ▸ h.near, fun hodd => habs ▸ h.nearer (by omega)⟩

end NearestStep

/-- The steps in a magnitude rounded to a number of places. -/
theorem nearestStep_fixed (places : Int) (bits : Nat) :
    NearestStep (gridStep (-places)) (units bits) (fixed places bits).coefficient := by
  have hspec := steps_spec bits (-places)
  unfold fixed
  generalize steps bits (-places) = nd at *
  obtain ⟨n, d⟩ := nd
  obtain ⟨hd, hsteps⟩ := hspec
  have hg := gridStep_pos (-places)
  obtain ⟨hlow, hhigh, hodd⟩ := roundDiv_bounds n hd
  change NearestStep _ _ (roundDiv n d : Nat)
  generalize roundDiv n d = r at *
  -- The coefficient is the nearest whole number to the quotient of the steps; one step scales both
  -- distances.
  have hdiff : units bits - ((r : Int) : ℚ) * gridStep (-places) =
      ((n : ℚ) / d - r) * gridStep (-places) := by
    rw [sub_mul, hsteps, Int.cast_natCast]
  have hhalf : gridStep (-places) / 2 = 1 / 2 * gridStep (-places) := by ring
  refine ⟨?_, fun h => ?_⟩
  · rw [hdiff, abs_mul, abs_of_pos hg, hhalf]
    exact mul_le_mul_of_nonneg_right (abs_le.2 ⟨by linarith, by linarith⟩) hg.le
  · obtain ⟨hlow, hhigh⟩ := hodd (by omega)
    rw [hdiff, abs_mul, abs_of_pos hg, hhalf]
    exact mul_lt_mul_of_pos_right (abs_lt.2 ⟨by linarith, by linarith⟩) hg

/-! ## Rounding to whole numbers -/

/-- A whole number is its own nearest one. -/
theorem nearestStep_self {step : ℚ} (h : 0 < step) (m : Int) : NearestStep step (m * step) m := by
  refine ⟨?_, fun _ => ?_⟩ <;> rw [sub_self, abs_zero] <;> positivity

/-- A double that is rounded to a whole number is finite, and that number is the nearest one. -/
theorem nearestStep_roundToInt {x : Float} {z : Int} (h : roundToInt x = .ok z) :
    isFinite x = true ∧ NearestStep unitsInOne (amount x) z := by
  rw [roundToInt] at h
  rw [isFinite, amount]
  cases hshape : Shape.ofFloat x with
  | nan => rw [hshape] at h; cases h
  | infinite s => rw [hshape] at h; cases h
  | finite s bits =>
    have hnear := nearestStep_fixed 0 bits
    have hsteps (e : Int) :
        steps bits e = (units bits * 10 ^ (-e).toNat, unitsInOne * 10 ^ e.toNat) := rfl
    have hround : (fixed 0 bits).coefficient = roundDiv (units bits) unitsInOne := by
      rw [fixed, hsteps, neg_zero, neg_zero, Int.toNat_zero, pow_zero, mul_one, mul_one]
    have hstep : gridStep (-0) = unitsInOne := by rw [neg_zero, gridStep, zpow_zero, one_mul]
    rw [hround, hstep] at hnear
    rw [hshape] at h
    obtain rfl := Except.ok.inj h
    cases s
    · exact ⟨rfl, hnear⟩
    · exact ⟨rfl, hnear.neg⟩

/-- Finite doubles are rounded to whole numbers. -/
theorem exists_roundToInt {x : Float} (h : isFinite x = true) : ∃ z, roundToInt x = .ok z := by
  rw [isFinite] at h
  rw [roundToInt]
  cases hshape : Shape.ofFloat x with
  | nan => rw [hshape] at h; cases h
  | infinite s => rw [hshape] at h; cases h
  | finite s bits => exact ⟨_, rfl⟩

/-- Rounding to whole numbers keeps order. -/
theorem roundToInt_le {x y : Float} {a b : Int} (hx : roundToInt x = .ok a)
    (hy : roundToInt y = .ok b) (h : amount x ≤ amount y) : a ≤ b :=
  (nearestStep_roundToInt hx).2.le (nearestStep_roundToInt hy).2 unitsInOne_pos h

/-- A double that is a whole number is rounded to that number. -/
theorem roundToInt_eq {x : Float} {z n : Int} (h : roundToInt x = .ok z)
    (hn : amount x = n * unitsInOne) : z = n := by
  have hnear := (nearestStep_roundToInt h).2
  have hself := nearestStep_self unitsInOne_pos n
  exact le_antisymm (hnear.le hself unitsInOne_pos hn.le) (hself.le hnear unitsInOne_pos hn.ge)

/-- A finite double between two whole numbers is rounded to one between them. -/
theorem roundToInt_between {x : Float} (hx : isFinite x = true) {a b : Int}
    (ha : a * unitsInOne ≤ amount x) (hb : amount x ≤ b * unitsInOne) :
    ∃ z, roundToInt x = .ok z ∧ a ≤ z ∧ z ≤ b := by
  obtain ⟨z, hz⟩ := exists_roundToInt hx
  have hnear := (nearestStep_roundToInt hz).2
  have hone := unitsInOne_pos
  exact ⟨z, hz, (nearestStep_self hone a).le hnear hone ha, hnear.le (nearestStep_self hone b) hone hb⟩

/-! ## Places after the point -/

section Places

variable {places : Int} {x y x' y' : Float}

/-- A finite double rounded to places after the point is the double nearest to the nearest step. -/
theorem exists_roundToPlaces (h0 : 0 ≤ places) (h : places < 1074) (hx : isFinite x = true) :
    ∃ x' m, roundToPlaces places x = .ok x' ∧ isFinite x' = true ∧
      NearestStep (gridStep (-places)) (amount x) m ∧ Rounds x' (m * gridStep (-places)) := by
  obtain ⟨s, bits, hb, rfl⟩ := exists_bits_of_isFinite hx
  have hstep : NearestStep (gridStep (-places)) (amount (Shape.floatOfBits s bits))
      (withSign s (fixed places bits).coefficient) := by
    rw [amount_floatOfBits hb.le]
    cases s
    · exact nearestStep_fixed places bits
    · exact (nearestStep_fixed places bits).neg
  have hrounds : Rounds ((fixed places bits).toFloat s)
      (withSign s (fixed places bits).coefficient * gridStep (-places)) := by
    have hround := rounds_toFloat s (fixed places bits)
    cases s
    · exact hround
    · rw [withSign_true, Int.cast_neg, neg_mul]
      exact hround
  -- Half a step of places after the point is at most half of one, too little to leave the finite
  -- doubles.
  have hfinite : isFinite ((fixed places bits).toFloat s) = true := by
    refine hrounds.isFinite_of_near hx ?_
    have hg := gridStep_pos (-places)
    have hone : gridStep (-places) ≤ gridStep 0 := gridStep_le (by omega)
    rw [gridStep, gridStep, zpow_zero, one_mul] at hone
    refine hstep.near.trans ?_
    rw [gridStep] at hg ⊢
    linarith
  refine ⟨_, _, ?_, hfinite, hstep, hrounds⟩
  rw [roundToPlaces, Shape.ofFloat_floatOfBits s hb.le, Shape.ofBits_of_lt hb]
  simp only
  rw [if_neg (by omega), if_neg (by omega), if_pos hfinite]

/-- A finite double is rounded to a finite one, if it has an answer. -/
theorem isFinite_of_roundToPlaces (hx : isFinite x = true) (h : roundToPlaces places x = .ok x') :
    isFinite x' = true := by
  rw [roundToPlaces] at h
  split at h
  next s bits _ =>
    split at h
    next => exact Except.ok.inj h ▸ hx
    next =>
      split at h
      next =>
        obtain rfl := Except.ok.inj h
        exact (isFinite_floatOfBits (by decide)).trans (by decide)
      next =>
        simp only at h
        split at h
        next hfinite => exact Except.ok.inj h ▸ hfinite
        next => cases h
  next => exact Except.ok.inj h ▸ hx

/-- NaN stays as it is. -/
theorem roundToPlaces_nan (h : Shape.ofFloat x = .nan) : roundToPlaces places x = .ok x := by
  rw [roundToPlaces, h]

/-- Rounding to places after the point always has an answer. -/
theorem exists_roundToPlaces_ok (h0 : 0 ≤ places) (h : places < 1074) (x : Float) :
    ∃ x', roundToPlaces places x = .ok x' := by
  cases hshape : Shape.ofFloat x with
  | nan => exact ⟨x, roundToPlaces_nan hshape⟩
  | infinite s => exact ⟨x, by rw [roundToPlaces, hshape]⟩
  | finite s bits =>
    obtain ⟨x', -, hx', -⟩ := exists_roundToPlaces h0 h
      (x := x) (by rw [isFinite, hshape])
    exact ⟨x', hx'⟩

/-- Rounding to places after the point has an answer for however many of them. -/
theorem exists_roundToPlaces_of_nonneg {places : Int} (h0 : 0 ≤ places) (x : Float) :
    ∃ x', roundToPlaces places x = .ok x' := by
  rcases lt_or_ge places 1074 with h | h
  · exact exists_roundToPlaces_ok h0 h x
  · refine ⟨x, ?_⟩
    rw [roundToPlaces]
    split
    · rw [if_pos h]
    · rfl

/-- Rounding to places after the point keeps order. -/
theorem roundToPlaces_le (h0 : 0 ≤ places) (h : places < 1074) (hx : isFinite x = true)
    (hy : isFinite y = true) (hx' : roundToPlaces places x = .ok x')
    (hy' : roundToPlaces places y = .ok y') (hle : amount x ≤ amount y) :
    x' ≤ y' := by
  obtain ⟨_, m, hxr, -, hm, hxm⟩ := exists_roundToPlaces h0 h hx
  obtain ⟨_, n, hyr, -, hn, hyn⟩ := exists_roundToPlaces h0 h hy
  cases hx'.symm.trans hxr
  cases hy'.symm.trans hyr
  have hg := gridStep_pos (-places)
  refine le_iff.2 ⟨hxm.isNumber, hyn.isNumber, hxm.le hyn ?_⟩
  exact mul_le_mul_of_nonneg_right (by exact_mod_cast hm.le hn hg hle) hg.le

/-- Doubles more than a step apart stay apart when they are rounded to places after the point. -/
theorem roundToPlaces_lt (h0 : 0 ≤ places) (h : places < 1074) (hx : isFinite x = true)
    (hy : isFinite y = true) (hx' : roundToPlaces places x = .ok x')
    (hy' : roundToPlaces places y = .ok y') (hlt : amount x + gridStep (-places) < amount y) :
    x' < y' := by
  have hg := gridStep_pos (-places)
  have hle := le_iff.1 (roundToPlaces_le h0 h hx hy hx' hy' (by linarith))
  refine lt_iff.2 ⟨hle.1, hle.2.1, hle.2.2.lt_of_ne fun heq => ?_⟩
  obtain ⟨_, m, hxr, -, hm, hxm⟩ := exists_roundToPlaces h0 h hx
  obtain ⟨_, n, hyr, -, hn, hyn⟩ := exists_roundToPlaces h0 h hy
  cases hx'.symm.trans hxr
  cases hy'.symm.trans hyr
  have hsucc : ((m + 1 : Int) : ℚ) * gridStep (-places) ≤ n * gridStep (-places) :=
    mul_le_mul_of_nonneg_right (by exact_mod_cast hm.lt hn hg hlt) hg.le
  push_cast at hsucc
  -- Neither double is nearer to its step than what both steps are rounded to.
  have hxnear := abs_le.1 ((hxm.nearest hx).trans hm.near)
  have hynear := abs_le.1 ((hyn.nearest hy).trans hn.near)
  have hnext : n = m + 1 := by
    have : (n : ℚ) * gridStep (-places) = (m + 1 : Int) * gridStep (-places) := by
      push_cast
      linarith
    exact_mod_cast mul_right_cancel₀ hg.ne' this
  rcases Int.emod_two_eq_zero_or_one m with hpar | hpar
  · have := abs_lt.1 ((hyn.nearest hy).trans_lt (hn.nearer (by omega)))
    linarith
  · have := abs_lt.1 ((hxm.nearest hx).trans_lt (hm.nearer hpar))
    linarith

end Places

end FormulaPlot
