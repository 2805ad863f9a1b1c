import Mathlib.Algebra.Order.Field.Power
import Mathlib.Tactic.FieldSimp
import FormulaPlot.Number.Layout
import FormulaPlot.Proofs.Number.Bits
import FormulaPlot.Proofs.Number.Nearest

/-!
# Shortest decimals read back

`shortest` gives a decimal that reads as the magnitude it is taken from
(`readsAs_shortest`), and `Decimal.toFloat` gives every decimal the bits of the magnitude that it
reads as (`exists_toFloat`, `toFloat_of_readsAs`).

Values are counted in units, the least doubles (`Decimal.inUnits`). The search for the fewest
digits ends at seventeen of them at the latest: there a step of the decimal grid is at most
`10 ^ -16` of the magnitude (`gridStep_le_units`), which is so little that one of the two grid
points next to the magnitude reads back (`onGrid?_isSome`).
-/

namespace FormulaPlot

open Binary

/-- A quotient is read as the magnitude it reads as, where infinity stands past the largest finite
one. -/
theorem exists_floatOfRatio (s : Bool) (n : Nat) {d : Nat} (hd : 0 < d) : ∃ bits,
    floatOfRatio s n d = Shape.floatOfBits s (min infinityBits bits) ∧
      ReadsAs bits ((n : ℚ) * 2 ^ 1074 / d) := by
  obtain ⟨bits, hnearest, hreads⟩ := exists_nearest n hd
  refine ⟨bits, ?_, hreads⟩
  rw [floatOfRatio, hnearest, Shape.ofBits]
  split
  next => rfl
  next hpast =>
    obtain h : min infinityBits bits = infinityBits := by omega
    rw [h, if_pos rfl]
    rfl

namespace Decimal

/-- The number of units in one. -/
def unitsInOne : Nat := 2 ^ 1074

/-- There are units in one. -/
theorem unitsInOne_pos : (0 : ℚ) < unitsInOne := by exact_mod_cast Nat.two_pow_pos 1074

/-- The units in one as a rational number. -/
theorem cast_unitsInOne : (unitsInOne : ℚ) = 2 ^ 1074 := by
  rw [unitsInOne, Nat.cast_pow, Nat.cast_ofNat]

/-- The number of units in a step of the grid of `10 ^ e`. -/
def gridStep (e : Int) : ℚ := 10 ^ e * unitsInOne

/-- The number of units in a decimal. -/
def inUnits (d : Decimal) : ℚ := d.coefficient * gridStep d.exponent

/-- A step of a grid is positive. -/
theorem gridStep_pos (e : Int) : 0 < gridStep e := by
  have := unitsInOne_pos
  rw [gridStep]
  positivity

/-- A step of a grid as a quotient of natural numbers. -/
theorem gridStep_eq_div (e : Int) :
    gridStep e = (10 ^ e.toNat * unitsInOne : ℚ) / 10 ^ (-e).toNat := by
  have hten : (10 : ℚ) ^ e = 10 ^ e.toNat / 10 ^ (-e).toNat := by
    rw [← zpow_natCast, ← zpow_natCast, ← zpow_sub₀ (by norm_num)]
    congr 1
    omega
  rw [gridStep, hten]
  ring

/-- Steps of grids differ by powers of ten. -/
theorem gridStep_add (e : Int) (k : Nat) : gridStep (e + k) = 10 ^ k * gridStep e := by
  rw [gridStep, gridStep, zpow_add₀ (by norm_num), zpow_natCast]
  ring

/-- Larger exponents have larger steps. -/
theorem gridStep_le {e f : Int} (h : e ≤ f) : gridStep e ≤ gridStep f := by
  obtain ⟨k, rfl⟩ := Int.le.dest h
  rw [gridStep_add]
  exact le_mul_of_one_le_left (gridStep_pos e).le (one_le_pow₀ (by norm_num))

/-- The test for reading back is exact. -/
theorem readsBack_iff (bits c : Nat) (e : Int) :
    readsBack bits c e = true ↔ ReadsAs bits (c * gridStep e) := by
  have hpos : (0 : ℚ) < 10 ^ (-e).toNat := by positivity
  have htwo : 2 ^ 1075 = unitsInOne * 2 := by rw [unitsInOne, ← Nat.pow_succ]
  have hgrid : c * gridStep e = (c * 10 ^ e.toNat * unitsInOne : ℚ) / 10 ^ (-e).toNat := by
    rw [gridStep_eq_div]
    ring
  -- Cleared of its denominators, a comparison of rational numbers is one of natural numbers.
  have hle (a : Nat) : a * 10 ^ (-e).toNat ≤ c * 10 ^ e.toNat * 2 ^ 1075 ↔
      (a : ℚ) / 2 ≤ c * gridStep e := by
    rw [htwo, hgrid, div_le_div_iff₀ two_pos hpos, mul_assoc _ _ (2 : ℚ)]
    exact_mod_cast Iff.rfl
  have hge (a : Nat) : c * 10 ^ e.toNat * 2 ^ 1075 ≤ a * 10 ^ (-e).toNat ↔
      c * gridStep e ≤ (a : ℚ) / 2 := by
    rw [htwo, hgrid, div_le_div_iff₀ hpos two_pos, mul_assoc _ _ (2 : ℚ)]
    exact_mod_cast Iff.rfl
  have hlow := hle (units (bits - 1) + units bits)
  have hhigh := hge (units bits + units (bits + 1))
  have hlow' := not_congr (hge (units (bits - 1) + units bits))
  have hhigh' := not_congr (hle (units bits + units (bits + 1)))
  rw [Nat.cast_add] at hlow hhigh hlow' hhigh'
  unfold readsBack ReadsAs lowEnd highEnd
  simp only [Nat.pow_eq]
  split
  · rw [Bool.and_eq_true, decide_eq_true_iff, decide_eq_true_iff, hlow, hhigh]
  · rw [Bool.and_eq_true, decide_eq_true_iff, decide_eq_true_iff, ← not_le, ← not_le, hlow',
      hhigh', not_le, not_le]

/-! ## The search for the fewest digits -/

/-- A magnitude is its number of steps of a grid. -/
theorem steps_spec (bits : Nat) (e : Int) :
    0 < (steps bits e).2 ∧ ((steps bits e).1 : ℚ) / (steps bits e).2 * gridStep e = units bits := by
  have hsteps : steps bits e = (units bits * 10 ^ (-e).toNat, unitsInOne * 10 ^ e.toNat) := rfl
  have hone : 0 < unitsInOne := Nat.two_pow_pos 1074
  have hone' : (unitsInOne : ℚ) ≠ 0 := by exact_mod_cast hone.ne'
  rw [hsteps, gridStep_eq_div]
  refine ⟨by positivity, ?_⟩
  push_cast
  field_simp

/-- The grid points next to a magnitude. -/
theorem floor_spec (bits : Nat) (e : Int) :
    ((steps bits e).1 / (steps bits e).2 : Nat) * gridStep e ≤ units bits ∧
      (units bits : ℚ) < ((steps bits e).1 / (steps bits e).2 + 1 : Nat) * gridStep e := by
  obtain ⟨hd, hsteps⟩ := steps_spec bits e
  have hg := gridStep_pos e
  rw [← hsteps]
  constructor
  · exact mul_le_mul_of_nonneg_right Nat.cast_div_le hg.le
  · refine mul_lt_mul_of_pos_right ?_ hg
    rw [div_lt_iff₀ (by exact_mod_cast hd)]
    exact_mod_cast Nat.lt_mul_of_div_lt (Nat.lt_succ_self _) hd

/-- What the search takes on a grid reads back. -/
theorem readsBack_of_onGrid? {bits c : Nat} {e : Int} (h : onGrid? bits e = some c) :
    readsBack bits c e = true := by
  unfold onGrid? at h
  generalize steps bits e = nd at h
  have hround := roundDiv_between nd.1 nd.2
  simp only at h
  split at h
  next hl hh =>
    obtain rfl := Option.some.inj h
    rcases (by omega : roundDiv nd.1 nd.2 = nd.1 / nd.2 ∨ roundDiv nd.1 nd.2 = nd.1 / nd.2 + 1)
      with hr | hr
    · rw [hr]; exact hl
    · rw [hr]; exact hh
  next hl _ => obtain rfl := Option.some.inj h; exact hl
  next _ hh => obtain rfl := Option.some.inj h; exact hh
  next => cases h

/-- With steps of at most `10 ^ -16` of the magnitude, a grid point next to it reads back. -/
theorem onGrid?_isSome {bits : Nat} {e : Int} (h0 : 0 < bits)
    (he : gridStep e * 10 ^ 16 ≤ units bits) : (onGrid? bits e).isSome := by
  obtain ⟨hfloor, hceil⟩ := floor_spec bits e
  have hor : readsBack bits ((steps bits e).1 / (steps bits e).2) e = true ∨
      readsBack bits ((steps bits e).1 / (steps bits e).2 + 1) e = true := by
    rw [readsBack_iff, readsBack_iff]
    generalize (steps bits e).1 / (steps bits e).2 = q at *
    generalize gridStep e = g at *
    obtain ⟨k, r, rfl, hk, hr⟩ := exists_block bits
    have hu : (units (k * 2 ^ 52 + r) : ℚ) = r * 2 ^ k := by
      rw [units_block hk hr.le, Nat.cast_mul, Nat.cast_pow]
      rfl
    have hlow : lowEnd (k * 2 ^ 52 + r) < r * 2 ^ k := hu ▸ lowEnd_lt h0
    have hhigh := le_highEnd_block hk hr.le
    have hhalf : (r * 2 ^ k : ℚ) < (r + 1 / 2) * 2 ^ k :=
      mul_lt_mul_of_pos_right (by linarith) (by positivity)
    rw [hu] at he hfloor hceil
    rcases lt_or_ge (((q + 1 : Nat) : ℚ) * g) ((r + 1 / 2) * 2 ^ k) with hup | hup
    · exact .inr (readsAs_of_lt (hlow.trans hceil) (hup.trans_le hhigh))
    · -- The grid point above is too far away, so the one below is near.
      have hdown : (r + 1 / 2 : ℚ) * 2 ^ k - g ≤ q * g := by push_cast at hup; linarith
      have hlow' : lowEnd (k * 2 ^ 52 + r) < (r + 1 / 2 : ℚ) * 2 ^ k - g := by
        -- A step of the grid is less than one of the block, as no mantissa has more than 53
        -- bits, and less than half of one at the first mantissa of a block.
        by_cases hinner : k = 0 ∨ 2 ^ 52 < r
        · have hr' : (r : ℚ) ≤ 9007199254740992 := by
            exact_mod_cast (by omega : r ≤ 9007199254740992)
          have hg : g * 10 ^ 16 ≤ 9007199254740992 * 2 ^ k := he.trans (by gcongr)
          rw [lowEnd_block hinner (by omega) hr.le]
          linarith
        · obtain rfl : r = 2 ^ 52 := by omega
          push_cast at he hfloor hup
          linarith
      exact .inl (readsAs_of_lt (hlow'.trans_le hdown) (hfloor.trans_lt (hhalf.trans_le hhigh)))
  unfold onGrid?
  generalize steps bits e = nd at *
  simp only
  split <;> simp_all

/-- The digits of a positive number give its power of ten. -/
theorem length_toDigits_bounds {n : Nat} (h : 0 < n) :
    10 ^ ((Nat.toDigits 10 n).length - 1) ≤ n ∧ n < 10 ^ (Nat.toDigits 10 n).length := by
  have hlen := Nat.length_toDigits_pos (b := 10) (n := n)
  constructor
  · rcases Nat.eq_or_lt_of_le hlen with h1 | h1
    · rw [← h1]; exact h
    · by_contra hlt
      have := (Nat.length_toDigits_le_iff (by norm_num) (by omega)).2 (not_le.1 hlt)
      omega
  · exact (Nat.length_toDigits_le_iff (by norm_num) hlen).1 le_rfl

/-- A positive magnitude is not below the power of ten of its first digit. -/
theorem gridStep_le_units {bits : Nat} (h : 0 < bits) :
    gridStep (integerDigits bits - 1) ≤ units bits := by
  -- Where the guess or its successor was tested, the test says it.
  have hdecade {k : Int} (hk : inDecade bits k = true) : gridStep (k - 1) ≤ units bits := by
    obtain ⟨hd, hsteps⟩ := steps_spec bits (k - 1)
    have hle : (steps bits (k - 1)).2 ≤ (steps bits (k - 1)).1 := by
      unfold inDecade at hk
      simp only [Bool.and_eq_true, decide_eq_true_eq] at hk
      exact hk.1
    rw [← hsteps]
    refine le_mul_of_one_le_left (gridStep_pos _).le ?_
    rw [one_le_div (by exact_mod_cast hd)]
    exact_mod_cast hle
  unfold integerDigits
  simp only
  split
  next hk => exact hdecade hk
  split
  next hk => exact hdecade hk
  · -- The digits of the magnitude in steps of `10 ^ -400`, which is less than a unit.
    have hfine : unitsInOne ≤ 10 ^ 400 := by decide +kernel
    have hone : 0 < unitsInOne := Nat.two_pow_pos 1074
    rw [Nat.pow_eq, Nat.pow_eq]
    change gridStep (((Nat.toDigits 10 (units bits * 10 ^ 400 / unitsInOne)).length : Int)
      - 400 - 1) ≤ units bits
    have hpos : 0 < units bits * 10 ^ 400 / unitsInOne :=
      Nat.div_pos (hfine.trans (Nat.le_mul_of_pos_left _ (units_pos h))) hone
    have hlen := Nat.length_toDigits_pos (b := 10) (n := units bits * 10 ^ 400 / unitsInOne)
    have hdigits := (length_toDigits_bounds hpos).1
    generalize (Nat.toDigits 10 (units bits * 10 ^ 400 / unitsInOne)).length = l at *
    rw [Nat.le_div_iff_mul_le hone] at hdigits
    have hstep : gridStep (l - 1 : Nat) ≤ units bits * 10 ^ 400 := by
      rw [gridStep, zpow_natCast]
      exact_mod_cast hdigits
    rw [show ((l - 1 : Nat) : Int) = (l : Int) - 400 - 1 + (400 : Nat) by omega, gridStep_add,
      mul_comm] at hstep
    exact le_of_mul_le_mul_right hstep (by positivity)

/-- Dropping zeros leaves the number. -/
theorem inUnits_trimmed (c : Nat) (e : Int) : (trimmed c e).inUnits = c * gridStep e := by
  fun_induction trimmed c e with
  | case1 c e h ih =>
    rw [ih, show e + 1 = e + (1 : Nat) by rfl, gridStep_add, ← mul_assoc]
    congr 1
    exact_mod_cast Nat.div_mul_cancel (Nat.dvd_of_mod_eq_zero h.2)
  | case2 => rfl

/-- The decimal with the fewest digits reads as its magnitude. -/
theorem readsAs_shortest (bits : Nat) : ReadsAs bits (shortest bits).inUnits := by
  unfold shortest
  split
  next h =>
    subst h
    rw [inUnits, Nat.cast_zero, zero_mul]
    exact readsAs_zero
  next h =>
    have h0 : 0 < bits := Nat.pos_of_ne_zero h
    simp only
    split
    next d hfound =>
      obtain ⟨count, -, hcount⟩ := List.exists_of_findSome?_eq_some hfound
      obtain ⟨c, hgrid, rfl⟩ := Option.map_eq_some_iff.1 hcount
      rw [inUnits_trimmed, ← readsBack_iff]
      exact readsBack_of_onGrid? hgrid
    next hnone =>
      -- Seventeen digits are enough.
      have h17 := List.findSome?_eq_none_iff.1 hnone 17 (by simp)
      rw [Option.map_eq_none_iff] at h17
      have hstep : gridStep (integerDigits bits - (17 : Nat)) * 10 ^ 16 ≤ units bits := by
        rw [mul_comm, ← gridStep_add, show integerDigits bits - (17 : Nat) + (16 : Nat) =
          integerDigits bits - 1 by omega]
        exact gridStep_le_units h0
      exact absurd (onGrid?_isSome h0 hstep) (by rw [h17]; exact Bool.false_ne_true)

/-! ## Reading a decimal -/

/-- A decimal is between the powers of ten of its first digit. -/
theorem leading_bounds {d : Decimal} (h : 0 < d.coefficient) :
    gridStep d.leading ≤ d.inUnits ∧ d.inUnits < gridStep (d.leading + 1) := by
  have hlen := Nat.length_toDigits_pos (b := 10) (n := d.coefficient)
  obtain ⟨hlow, hhigh⟩ := length_toDigits_bounds h
  have hg := gridStep_pos d.exponent
  unfold leading digits inUnits
  generalize (Nat.toDigits 10 d.coefficient).length = l at *
  rw [show d.exponent + l - 1 + 1 = d.exponent + l by omega, gridStep_add,
    show d.exponent + l - 1 = d.exponent + (l - 1 : Nat) by omega, gridStep_add]
  constructor
  · exact mul_le_mul_of_nonneg_right (by exact_mod_cast hlow) hg.le
  · exact mul_lt_mul_of_pos_right (by exact_mod_cast hhigh) hg

/-- What reads as a finite magnitude is less than `10 ^ 311`. -/
theorem lt_of_readsAs {bits : Nat} {q : ℚ} (hb : bits < infinityBits) (h : ReadsAs bits q) :
    q < gridStep 311 := by
  have hnext : units (bits + 1) ≤ units infinityBits := units_strictMono.monotone hb
  have hinf : units infinityBits < 10 ^ 311 * unitsInOne := by decide +kernel
  have hbits := units_lt_succ bits
  have hle : (units bits + units (bits + 1) : ℚ) / 2 < 10 ^ 311 * unitsInOne := by
    rw [div_lt_iff₀ two_pos]
    exact_mod_cast (by omega :
      units bits + units (bits + 1) < 10 ^ 311 * unitsInOne * 2)
  exact h.le.2.trans_lt hle

/-- What is less than `10 ^ -330` reads as zero. -/
theorem readsAs_zero_of_lt {q : ℚ} (h0 : 0 ≤ q) (h : q < gridStep (-330)) : ReadsAs 0 q := by
  have hhalf : gridStep (-330) ≤ 1 / 2 := by
    rw [gridStep_eq_div, div_le_div_iff₀ (by positivity) two_pos]
    have hsmall : unitsInOne * 2 ≤ 10 ^ 330 := by decide +kernel
    rw [show (-330 : Int).toNat = 0 by rfl, show (-(-330 : Int)).toNat = 330 by rfl, pow_zero,
      one_mul, one_mul]
    exact_mod_cast hsmall
  unfold ReadsAs lowEnd highEnd
  rw [if_pos rfl]
  norm_num [units]
  exact ⟨h0, (h.trans_le hhalf).le⟩

/-- Every decimal is read as the magnitude it reads as, where infinity stands past the largest finite
one. -/
theorem exists_toFloat (s : Bool) (d : Decimal) : ∃ bits,
    d.toFloat s = Shape.floatOfBits s (min infinityBits bits) ∧ ReadsAs bits d.inUnits := by
  have hpos : 0 < 10 ^ (-d.exponent).toNat := by positivity
  have hunits : ((d.coefficient * 10 ^ d.exponent.toNat : Nat) : ℚ) * 2 ^ 1074 /
      (10 ^ (-d.exponent).toNat : Nat) = d.inUnits := by
    rw [inUnits, gridStep_eq_div, unitsInOne]
    push_cast
    ring
  obtain ⟨bits, hratio, hreads⟩ :=
    exists_floatOfRatio s (d.coefficient * 10 ^ d.exponent.toNat) hpos
  rw [hunits] at hreads
  unfold toFloat
  split
  next hc =>
    rw [inUnits, hc, Nat.cast_zero, zero_mul]
    exact ⟨0, rfl, readsAs_zero⟩
  next hc =>
    obtain ⟨hlow, hhigh⟩ := leading_bounds (Nat.pos_of_ne_zero hc)
    split
    -- Where no power is computed, the bounds of the first digit tell the bits.
    next hbig =>
      have hpast : infinityBits ≤ bits := by
        by_contra hlt
        have := lt_of_readsAs (not_le.1 hlt) hreads
        have := gridStep_le (by omega : 311 ≤ d.leading)
        linarith
      exact ⟨bits, by rw [Nat.min_eq_left hpast]; rfl, hreads⟩
    split
    next hsmall =>
      have hle := gridStep_le (by omega : d.leading + 1 ≤ -330)
      have := gridStep_pos d.leading
      exact ⟨0, rfl, readsAs_zero_of_lt (by linarith) (by linarith)⟩
    next => exact ⟨bits, hratio, hreads⟩

/-- A decimal that reads as a finite magnitude is read as it. -/
theorem toFloat_of_readsAs {d : Decimal} {bits : Nat} (hb : bits < infinityBits)
    (h : ReadsAs bits d.inUnits) (negative : Bool) :
    d.toFloat negative = (Shape.finite negative bits).toFloat := by
  obtain ⟨b, hread, hreads⟩ := d.exists_toFloat negative
  rw [hread, readsAs_unique hreads h, Nat.min_eq_right hb.le]
  rfl

end Decimal

end FormulaPlot
