import FormulaPlot.Proofs.Number.Rounds

/-!
# Arithmetic is correctly rounded

Sum, difference, product and quotient of finite doubles are their exact counterparts rounded
(`rounds_add`, `rounds_sub`, `rounds_mul`, `rounds_div`).

All four come down to one rounding step (`rounds_roundWithAccuracy`). It has a natural number for
the leading bits of the result and two bits that tell of the rest. Shifting such a number to the
right keeps what the two bits say (`Extends.shiftRight`), so that in the end it is rounded as the
exact quotient would be (`Extends.roundedMantissa`).
-/

namespace FormulaPlot

open Float.Model Float.Model.UnpackedFloat Binary

/-! ## Rounding bits -/

/-- A mantissa with two bits that tell of the rest of a quotient: its whole part, whether the rest is
a half or more, and whether the rest is neither nothing nor a half. -/
structure Extends (em : ExtendedMantissa) (n d : Nat) : Prop where
  mantissa : em.mantissa = n / d
  roundBit : em.roundBit = decide (d ≤ 2 * (n % d))
  stickyBit : em.stickyBit = decide (n % d ≠ 0 ∧ 2 * (n % d) ≠ d)

namespace Extends

variable {em : ExtendedMantissa} {n d : Nat}

/-- A quotient with the rest of its division. -/
theorem ofFraction (n : Nat) {d : Nat} (hd : 0 < d) :
    Extends (.ofMantissaAndAccuracy (n / d) (accuracyOfFraction (n % d) d)) n d := by
  have ht {p : Prop} [Decidable p] (h : p) : true = decide p := (decide_eq_true h).symm
  have hf {p : Prop} [Decidable p] (h : ¬ p) : false = decide p := (decide_eq_false h).symm
  rw [accuracyOfFraction]
  split
  next h0 => exact ⟨rfl, hf (by omega), hf (by omega)⟩
  next h0 =>
    rcases lt_trichotomy (2 * (n % d)) d with h | h | h
    · rw [Nat.compare_eq_lt.2 h]
      exact ⟨rfl, hf (by omega), ht (by omega)⟩
    · rw [Nat.compare_eq_eq.2 h]
      exact ⟨rfl, ht (by omega), hf (by omega)⟩
    · rw [Nat.compare_eq_gt.2 h]
      exact ⟨rfl, ht (by omega), ht (by omega)⟩

/-- Half a quotient. -/
theorem shiftRightOne (h : Extends em n d) (hd : 0 < d) : Extends em.shiftRightOne n (d * 2) := by
  have hlt := Nat.mod_lt n hd
  -- The last bit of the mantissa becomes the first one of the rest.
  have hmod : n % (d * 2) = n % d + d * (n / d % 2) := Nat.mod_mul
  refine ⟨?_, ?_, ?_⟩
  · rw [ExtendedMantissa.shiftRightOne, h.mantissa, Nat.div_div_eq_div_mul]
  · rw [ExtendedMantissa.shiftRightOne, h.mantissa, hmod]
    rcases Nat.mod_two_eq_zero_or_one (n / d) with h0 | h0 <;> rw [h0] <;> simp <;> omega
  · rw [ExtendedMantissa.shiftRightOne, h.roundBit, h.stickyBit, hmod, ← Bool.decide_or,
      decide_eq_decide]
    rcases Nat.mod_two_eq_zero_or_one (n / d) with h0 | h0 <;> rw [h0] <;> omega

/-- A quotient by a power of two. -/
theorem shiftRight (h : Extends em n d) (hd : 0 < d) (j : Nat) :
    Extends (em >>> j) n (d * 2 ^ j) := by
  induction j with
  | zero =>
    rw [Nat.pow_zero, Nat.mul_one]
    exact h
  | succ j ih =>
    rw [Nat.pow_succ, ← Nat.mul_assoc]
    exact ih.shiftRightOne (by positivity)

/-- The mantissa is rounded as the quotient is. -/
theorem roundedMantissa (h : Extends em n d) (hd : 0 < d) : em.roundedMantissa = roundDiv n d := by
  obtain ⟨m, r, t⟩ := em
  obtain ⟨hm, hr, ht⟩ := h
  simp only at hm hr ht
  have hlt := Nat.mod_lt n hd
  rw [roundDiv, ExtendedMantissa.roundedMantissa]
  rcases lt_trichotomy (2 * (n % d)) d with h | h | h
  · rw [decide_eq_false (by omega)] at hr
    rw [if_pos h, hm, hr]
    cases t <;> rfl
  · rw [decide_eq_true (by omega)] at hr
    rw [decide_eq_false (by omega)] at ht
    rw [if_neg (by omega), if_neg (by omega), hm, hr, ht]
    rfl
  · rw [decide_eq_true (by omega)] at hr
    rw [decide_eq_true (by omega)] at ht
    rw [if_neg (by omega), if_pos h, hm, hr, ht]
    rfl

end Extends

/-! ## The rounding step -/

/-- The exponent that the rounding of a number with this mantissa and exponent aims at. -/
def target (m : Nat) (e : Int) : Int := Format.binary64.targetExponent (totalExponent m e)

/-- The target in terms of the bits of the mantissa. -/
theorem target_eq (m : Nat) (e : Int) : target m e = max ((m.log2 : Int) + 1 + e - 53) (-1074) := rfl

/-- The target is the exponent of a block, and leaves a mantissa of that block. -/
theorem target_spec {m : Nat} {e : Int} (he : e ≤ target m e) :
    ∃ k j : Nat, target m e = k - 1074 ∧ target m e = e + j ∧ (k = 0 ∨ 2 ^ 52 ≤ m / 2 ^ j) ∧
      m / 2 ^ j < 2 ^ 53 := by
  have ht := target_eq m e
  refine ⟨(target m e + 1074).toNat, (target m e - e).toNat, by omega, by omega, ?_, ?_⟩
  · rcases le_or_gt (target m e) (-1074) with h | h
    · exact .inl (by omega)
    · right
      rw [Nat.le_div_iff_mul_le (by positivity), ← pow_add]
      have hm : m ≠ 0 := by
        rintro rfl
        have : Nat.log2 0 = 0 := rfl
        omega
      exact (Nat.pow_le_pow_right (by norm_num) (by omega)).trans (Nat.log2_self_le hm)
  · rw [Nat.div_lt_iff_lt_mul (by positivity), ← pow_add]
    exact Nat.lt_log2_self.trans_le (Nat.pow_le_pow_right (by norm_num) (by omega))

/-- Shifting to the target. -/
theorem shiftToTargetExponent_eq {m : Nat} {e : Int} (he : e ≤ target m e) (a : Accuracy) :
    shiftToTargetExponent .binary64 m e a =
      (ExtendedMantissa.ofMantissaAndAccuracy m a >>> (target m e - e).toNat, target m e) := by
  refine Prod.ext rfl ?_
  change e + (target m e - e).toNat = target m e
  omega

/-- A rounded mantissa is that of a block. If it has one bit too many it is the first one of the next
block. -/
theorem shiftToTargetExponent_exact {k r : Nat} (hk : k = 0 ∨ 2 ^ 52 ≤ r) (hr : r ≤ 2 ^ 53) :
    ∃ (em : ExtendedMantissa) (k' : Nat),
      shiftToTargetExponent .binary64 r (k - 1074) .exact = (em, (k' : Int) - 1074) ∧
        (k' = 0 ∨ 2 ^ 52 ≤ em.mantissa) ∧ em.mantissa < 2 ^ 53 ∧
        k' * 2 ^ 52 + em.mantissa = k * 2 ^ 52 + r := by
  have ht := target_eq r (k - 1074)
  rcases hr.lt_or_eq with hr | rfl
  · have hlog : r.log2 < 53 := by
      rcases Nat.eq_zero_or_pos r with rfl | h0
      · decide
      · exact (Nat.log2_lt h0.ne').2 hr
    have hshift : (target r (k - 1074) - (k - 1074)).toNat = 0 := by omega
    refine ⟨⟨r, false, false⟩, k, Prod.ext ?_ ?_, hk, hr, rfl⟩
    · change ExtendedMantissa.ofMantissaAndAccuracy r .exact >>>
        (target r (k - 1074) - (k - 1074)).toNat = _
      rw [hshift]
      rfl
    · change (k : Int) - 1074 + ((target r (k - 1074) - (k - 1074)).toNat : Int) = _
      rw [hshift, Nat.cast_zero, add_zero]
  · -- Rounding has carried, so there is one more shift, which loses no bit.
    have hlog : (2 ^ 53).log2 = 53 := Nat.log2_two_pow
    refine ⟨⟨2 ^ 52, false, false⟩, k + 1, ?_, .inr le_rfl, by norm_num, by ring⟩
    rw [shiftToTargetExponent_eq (by omega),
      show (target (2 ^ 53) (k - 1074) - (k - 1074)).toNat = 1 by omega]
    exact Prod.ext rfl (by simp only; omega)

/-- A quotient is rounded to the double to which it is nearest. -/
theorem rounds_roundWithAccuracy (s : Bool) (n : Nat) {d : Nat} (hd : 0 < d) {e : Int}
    (he : e ≤ target (n / d) e) :
    Rounds (ofUnpacked (roundWithAccuracy .binary64 (signOf s) (n / d) e
      (accuracyOfFraction (n % d) d))) (signedBy s (n / d * 2 ^ (e + 1074))) := by
  obtain ⟨k, j, hk, hj, hblock, hlt⟩ := target_spec he
  have hpos : 0 < d * 2 ^ j := by positivity
  rw [Nat.div_div_eq_div_mul] at hblock hlt
  -- Shifted to the block of the target the quotient is one by `d * 2 ^ j`, whose rounding is known.
  have hreads := readsAs_round hpos hblock hlt
  have hunits : (n / (d * 2 ^ j : Nat) : ℚ) * 2 ^ k = n / d * 2 ^ (e + 1074) := by
    rw [show e + 1074 = (k : Int) - (j : Int) by omega, zpow_sub₀ (by norm_num), zpow_natCast,
      zpow_natCast]
    push_cast
    field_simp
  rw [hunits] at hreads
  refine ⟨s, _, _, hreads, rfl, ?_⟩
  obtain ⟨hr, hr'⟩ := roundDiv_block hblock hlt
  rw [roundWithAccuracy, shiftToTargetExponent_eq he, show (target (n / d) e - e).toNat = j by omega]
  simp only [((Extends.ofFraction n hd).shiftRight hd j).roundedMantissa hpos]
  -- A carry is settled by a second shift, which finds the same bits.
  obtain ⟨em, k', hshift, hblock', hlt', hbits⟩ := shiftToTargetExponent_exact hr hr'
  simp only [hk, hshift, ← hbits]
  split
  next h0 =>
    obtain rfl : k' = 0 := by omega
    rw [h0, ofUnpacked_zero]
    rfl
  next h0 => exact ofUnpacked_finite (Nat.pos_of_ne_zero h0) hblock' hlt'

/-- A power of two adds to the bits of a number. -/
theorem log2_mul_two_pow {m : Nat} (h : 0 < m) (i : Nat) : (m * 2 ^ i).log2 = m.log2 + i := by
  rw [Nat.log2_eq_iff (by positivity), Nat.add_right_comm, pow_add, pow_add _ (_ + 1)]
  exact ⟨Nat.mul_le_mul_right _ (Nat.log2_self_le h.ne'),
    Nat.mul_lt_mul_of_pos_right Nat.lt_log2_self (by positivity)⟩

/-- A target stays the same where the exponent is taken down to it. -/
theorem target_shift {m : Nat} (h : 0 < m) (e : Int) (i : Nat) :
    target (m * 2 ^ i) (e - i) = target m e := by
  rw [target_eq, target_eq, log2_mul_two_pow h]
  push_cast
  congr 1
  ring

/-- A number with any exponent is rounded to the double to which it is nearest. -/
theorem rounds_round (s : Bool) {m : Nat} (h : 0 < m) (e : Int) :
    Rounds (ofUnpacked (round .binary64 (signOf s) m e)) (signedBy s (m * 2 ^ (e + 1074))) := by
  -- An exponent above the target is taken down to it first, which changes the mantissa and not the
  -- number.
  generalize hi : (e - target m e).toNat = i
  have hshift := target_shift h e i
  have hround := rounds_roundWithAccuracy s (m * 2 ^ i) one_pos (e := e - i)
    (by rw [Nat.div_one, hshift]; omega)
  have hunits : ((m * 2 ^ i : Nat) : ℚ) / (1 : Nat) * 2 ^ (e - i + 1074) = m * 2 ^ (e + 1074) := by
    rw [show e - i + 1074 = e + 1074 - (i : Int) by ring, zpow_sub₀ (by norm_num), zpow_natCast]
    push_cast
    field_simp
  have hdecrease : decreaseExponent m e (target m e) = (m * 2 ^ i, e - i) := by
    rw [decreaseExponent, hi, Nat.shiftLeft_eq]
  rw [hunits, Nat.div_one, Nat.mod_one] at hround
  have hround' : round .binary64 (signOf s) m e =
      roundWithAccuracy .binary64 (signOf s) (decreaseExponent m e (target m e)).1
        (decreaseExponent m e (target m e)).2 .exact := rfl
  rw [hround', hdecrease]
  exact hround

/-- A signed number with any exponent is rounded to the double to which it is nearest. -/
theorem rounds_normalize (z e : Int) :
    Rounds (ofUnpacked (UnpackedFloat.normalize .binary64 z e .positive)) (z * 2 ^ (e + 1074)) := by
  rw [UnpackedFloat.normalize]
  rcases lt_trichotomy z 0 with h | rfl | h
  · have hz : ((-z).toNat : ℚ) = -z := by
      rw [← Int.cast_natCast, Int.toNat_of_nonneg (by omega)]
      push_cast
      ring
    have hround := rounds_round true (m := (-z).toNat) (by omega) e
    rw [hz, signedBy_true, neg_mul, neg_neg] at hround
    rw [Int.compare_eq_lt.2 h]
    exact hround
  · rw [Int.compare_eq_eq.2 rfl]
    refine ⟨false, 0, 0, readsAs_zero, by simp, ?_⟩
    exact ofUnpacked_zero false
  · have hz : (z.toNat : ℚ) = z := by
      rw [← Int.cast_natCast, Int.toNat_of_nonneg h.le]
    have hround := rounds_round false (m := z.toNat) (by omega) e
    rw [hz, signedBy_false] at hround
    rw [Int.compare_eq_gt.2 h]
    exact hround

/-! ## The operations -/

/-- An unpacked form that is a finite number in its block. -/
inductive Stands : UnpackedFloat → ℚ → Prop
  | zero (s : Bool) : Stands (.zero (signOf s)) 0
  | finite (s : Bool) {m k : Nat} (h : 0 < m) (hk : k = 0 ∨ 2 ^ 52 ≤ m) (hm : m < 2 ^ 53) :
    Stands (.finite (signOf s) m (k - 1074) h) (signedBy s (m * 2 ^ k))

/-- A finite double is a finite number in its block. -/
theorem stands_unpacked {x : Float} (h : isFinite x = true) :
    Stands (Shape.ofFloat x).unpacked (amount x) := by
  obtain ⟨s, bits, hb, rfl⟩ := exists_bits_of_isFinite h
  rw [Shape.ofFloat_floatOfBits s hb.le, Shape.ofBits_of_lt hb, amount_floatOfBits hb.le,
    units_eq_mantissa]
  obtain ⟨-, hblock, hlt⟩ := block_spec bits
  rcases Nat.eq_zero_or_pos (mantissa bits) with h0 | h0
  · rw [Shape.unpacked_zero h0, h0]
    simpa using Stands.zero s
  · rw [Shape.unpacked_finite h0]
    push_cast
    exact .finite s h0 hblock hlt

namespace Stands

variable {u v : UnpackedFloat} {q r : ℚ}

/-- Such a number is put together without rounding. -/
theorem rounds (h : Stands u q) : Rounds (ofUnpacked u) q := by
  cases h with
  | zero s => exact ⟨s, 0, 0, readsAs_zero, (signedBy_zero s).symm, ofUnpacked_zero s⟩
  | @finite s m k h hk hm =>
    have hunits : (units (k * 2 ^ 52 + m) : ℚ) = m * 2 ^ k := by
      rw [units_block hk hm.le]
      push_cast
      rfl
    exact ⟨s, k * 2 ^ 52 + m, _, hunits ▸ readsAs_units _, rfl, ofUnpacked_finite h hk hm⟩

/-- The negative of a sign. -/
theorem neg_signOf (s : Bool) : -signOf s = signOf !s := by
  cases s <;> rfl

/-- The negative. -/
theorem neg (h : Stands u q) : Stands u.neg (-q) := by
  cases h with
  | zero s =>
    rw [UnpackedFloat.neg, neg_signOf, neg_zero]
    exact .zero !s
  | @finite s m k h hk hm =>
    have hq : -signedBy s ((m : ℚ) * 2 ^ k) = signedBy (!s) (m * 2 ^ k) := by
      cases s <;> simp
    rw [UnpackedFloat.neg, neg_signOf, hq]
    exact .finite (!s) h hk hm

/-- A mantissa with a sign. -/
theorem apply_signOf (s : Bool) (n : Nat) : ((signOf s).apply n : ℚ) = signedBy s n := by
  cases s <;> simp [signOf, Sign.apply]

/-- A signed mantissa on the grid of a lower exponent. -/
theorem decreaseExponent_units (s : Bool) (m k : Nat) {e : Int} (he : e ≤ k - 1074) :
    ((signOf s).apply (decreaseExponent m (k - 1074) e).1 : ℚ) * 2 ^ (e + 1074) =
      signedBy s (m * 2 ^ k) := by
  have hshift : ((k : Int) - 1074 - e).toNat + (e + 1074) = (k : Int) := by omega
  rw [apply_signOf, decreaseExponent, Nat.shiftLeft_eq]
  generalize ((k : Int) - 1074 - e).toNat = i at *
  have hpow : (2 : ℚ) ^ i * 2 ^ (e + 1074) = 2 ^ k := by
    rw [← zpow_natCast (2 : ℚ) i, ← zpow_add₀ (by norm_num), hshift, zpow_natCast]
  push_cast
  cases s
  · rw [signedBy_false, signedBy_false, mul_assoc, hpow]
  · rw [signedBy_true, signedBy_true, neg_mul, mul_assoc, hpow]

/-- A sum is rounded from the exact sum. -/
theorem add (hu : Stands u q) (hv : Stands v r) :
    Rounds (ofUnpacked (.add .binary64 u v)) (q + r) := by
  cases hu with
  | zero s =>
    cases hv with
    | zero t =>
      have hzero : ∃ b, UnpackedFloat.add .binary64 (.zero (signOf s)) (.zero (signOf t)) =
          .zero (signOf b) := by
        cases s <;> cases t
        · exact ⟨false, rfl⟩
        · exact ⟨false, rfl⟩
        · exact ⟨false, rfl⟩
        · exact ⟨true, rfl⟩
      obtain ⟨b, hb⟩ := hzero
      rw [hb, add_zero]
      exact (Stands.zero b).rounds
    | finite t h hk hm =>
      rw [zero_add]
      exact (Stands.finite t h hk hm).rounds
  | finite s h hk hm =>
    cases hv with
    | zero t =>
      rw [add_zero]
      exact (Stands.finite s h hk hm).rounds
    | finite t h' hk' hm' =>
      rename_i m k n l
      -- Both mantissas are brought to the lower of the two exponents.
      have hround := rounds_normalize
        ((signOf s).apply (decreaseExponent m (k - 1074) (min (k - 1074) (l - 1074))).1 +
          (signOf t).apply (decreaseExponent n (l - 1074) (min (k - 1074) (l - 1074))).1)
        (min (k - 1074) (l - 1074))
      rw [Int.cast_add, add_mul, decreaseExponent_units s m k (min_le_left _ _),
        decreaseExponent_units t n l (min_le_right _ _)] at hround
      exact hround

/-- A difference is rounded from the exact difference. -/
theorem sub (hu : Stands u q) (hv : Stands v r) :
    Rounds (ofUnpacked (.sub .binary64 u v)) (q - r) := by
  have hneg : UnpackedFloat.sub .binary64 u v = .add .binary64 u v.neg := by
    cases hu with
    | zero s =>
      cases hv with
      | zero t => cases s <;> cases t <;> rfl
      | finite t => cases t <;> rfl
    | finite s =>
      cases hv with
      | zero t => rfl
      | finite t =>
        cases t
        · exact congrArg (UnpackedFloat.normalize _ · _ _) (Int.sub_eq_add_neg)
        · exact congrArg (UnpackedFloat.normalize _ · _ _) (sub_neg_eq_add _ _)
  rw [hneg, sub_eq_add_neg]
  exact hu.add hv.neg

/-- The sign of a product. -/
theorem signOf_mul (s t : Bool) : signOf s * signOf t = signOf (s ^^ t) := by
  cases s <;> cases t <;> rfl

/-- The sign of a quotient. -/
theorem signOf_div (s t : Bool) : signOf s / signOf t = signOf (s ^^ t) := by
  cases s <;> cases t <;> rfl

/-- The mantissas of a product need no lower exponent. Unless both exponents are the least, the
product has the bits of a mantissa. -/
theorem le_target_mul {m n k l : Nat} (hm : 0 < m) (hn : 0 < n) (hk : k = 0 ∨ 2 ^ 52 ≤ m)
    (hl : l = 0 ∨ 2 ^ 52 ≤ n) :
    (k - 1074 + (l - 1074) : Int) ≤ target (m * n) (k - 1074 + (l - 1074)) := by
  rw [target_eq]
  -- Two numbers below the first block have the least exponent, so their product does too.
  by_cases hleast : k = 0 ∧ l = 0
  · omega
  · have hbits : 2 ^ 52 ≤ m * n := by
      rcases hk with rfl | hk
      · exact (hl.resolve_left fun h => hleast ⟨rfl, h⟩).trans (Nat.le_mul_of_pos_left n hm)
      · exact hk.trans (Nat.le_mul_of_pos_right m hn)
    have := (Nat.le_log2 (Nat.mul_pos hm hn).ne').2 hbits
    omega

/-- A product is rounded from the exact product. -/
theorem mul (hu : Stands u q) (hv : Stands v r) :
    Rounds (ofUnpacked (.mul .binary64 u v)) (q * r / 2 ^ 1074) := by
  cases hu with
  | zero s =>
    have hzero : ∃ t, UnpackedFloat.mul .binary64 (.zero (signOf s)) v =
        .zero (signOf s * signOf t) := by
      cases hv with
      | zero t => exact ⟨t, rfl⟩
      | finite t => exact ⟨t, rfl⟩
    obtain ⟨t, ht⟩ := hzero
    rw [ht, signOf_mul, zero_mul, zero_div]
    exact (Stands.zero _).rounds
  | @finite s m k h hk hm =>
    cases hv with
    | zero t =>
      rw [mul_zero, zero_div, UnpackedFloat.mul, signOf_mul]
      exact (Stands.zero _).rounds
    | @finite t n l h' hk' hm' =>
      have hround := rounds_roundWithAccuracy (s ^^ t) (m * n) one_pos
        (e := k - 1074 + (l - 1074)) (by rw [Nat.div_one]; exact le_target_mul h h' hk hk')
      have hunits : ((m * n : Nat) : ℚ) / (1 : Nat) * 2 ^ ((k - 1074 + (l - 1074) : Int) + 1074) =
          m * 2 ^ k * (n * 2 ^ l) / 2 ^ 1074 := by
        rw [show (k - 1074 + (l - 1074) : Int) + 1074 = (k + l : Int) - (1074 : Nat) by
          push_cast; ring, zpow_sub₀ (by norm_num), zpow_add₀ (by norm_num), zpow_natCast,
          zpow_natCast, zpow_natCast]
        generalize (2 : ℚ) ^ 1074 = one
        push_cast
        ring
      rw [hunits, Nat.div_one, Nat.mod_one, ← signOf_mul] at hround
      rw [signedBy_mul, ← signedBy_false (2 ^ 1074), signedBy_div, Bool.xor_false]
      exact hround

/-- The bits of a quotient. -/
theorem log2_le_add_log2_div {a b : Nat} (ha : 0 < a) (hb : 0 < b) :
    a.log2 ≤ b.log2 + (a / b).log2 + 1 := by
  have hlt : a < 2 ^ (b.log2 + (a / b).log2 + 2) := by
    calc a < b * (a / b + 1) := Nat.lt_mul_div_succ a hb
      _ ≤ 2 ^ (b.log2 + 1) * 2 ^ ((a / b).log2 + 1) :=
        Nat.mul_le_mul Nat.lt_log2_self.le Nat.lt_log2_self
      _ = 2 ^ (b.log2 + (a / b).log2 + 2) := by rw [← pow_add]; congr 1; omega
  have := (Nat.log2_lt ha.ne').2 hlt
  omega

/-- The exponent to which a dividend is taken down is no higher than the target of the quotient. -/
theorem le_target_div {m n : Nat} (hm : 0 < m) (hn : 0 < n) {e t : Int} (hte : t ≤ e)
    (ht : t ≤ max ((m.log2 : Int) + e - n.log2 - 53) (-1074)) :
    t ≤ target (m * 2 ^ (e - t).toNat / n) t := by
  have hlog := log2_le_add_log2_div (a := m * 2 ^ (e - t).toNat) (by positivity) hn
  rw [log2_mul_two_pow hm] at hlog
  rw [target_eq]
  omega

/-- A quotient by a number that is no zero is rounded from the exact quotient. -/
theorem div (hu : Stands u q) (hv : Stands v r) (hr : r ≠ 0) :
    Rounds (ofUnpacked (.div .binary64 u v)) (q / r * 2 ^ 1074) := by
  cases hv with
  | zero t => exact absurd rfl hr
  | @finite t n l h' hk' hm' =>
    cases hu with
    | zero s =>
      rw [zero_div, zero_mul, UnpackedFloat.div, signOf_div]
      exact (Stands.zero _).rounds
    | @finite s m k h hk hm =>
      -- The dividend is taken down to an exponent at which the quotient has all the bits that are
      -- kept.
      obtain ⟨e, he, hbits, hcore⟩ : ∃ e ≤ (k - 1074 - (l - 1074) : Int),
          e ≤ max ((m.log2 : Int) + (k - 1074 - (l - 1074)) - n.log2 - 53) (-1074) ∧
          divCore .binary64 m (k - 1074) n (l - 1074) =
            (m * 2 ^ (k - 1074 - (l - 1074) - e).toNat / n, e,
              accuracyOfFraction (m * 2 ^ (k - 1074 - (l - 1074) - e).toNat % n) n) := by
        refine ⟨_, min_le_left _ _, (min_le_right _ (max
          ((m.log2 + 1 + (k - 1074)) - (n.log2 + 1 + (l - 1074)) - 53 : Int) (-1074))).trans ?_, ?_⟩
        · exact le_of_eq (by congr 1; ring)
        · rw [← Nat.shiftLeft_eq]
          rfl
      have hdiv : UnpackedFloat.div .binary64 (.finite (signOf s) m (k - 1074) h)
          (.finite (signOf t) n (l - 1074) h') = roundWithAccuracy .binary64 (signOf s / signOf t)
            (divCore .binary64 m (k - 1074) n (l - 1074)).1
            (divCore .binary64 m (k - 1074) n (l - 1074)).2.1
            (divCore .binary64 m (k - 1074) n (l - 1074)).2.2 := rfl
      rw [hdiv, hcore, signOf_div]
      have hround := rounds_roundWithAccuracy (s ^^ t)
        (m * 2 ^ (k - 1074 - (l - 1074) - e).toNat) h' (le_target_div h h' he hbits)
      have hshift : ((k - 1074 - (l - 1074) - e).toNat : Int) + (e + 1074) =
          (k : Int) - l + (1074 : Nat) := by
        push_cast
        omega
      generalize (k - 1074 - (l - 1074) - e).toNat = i at *
      have hpow : (2 : ℚ) ^ i * 2 ^ (e + 1074) = 2 ^ k / 2 ^ l * 2 ^ 1074 := by
        rw [← zpow_natCast (2 : ℚ) i, ← zpow_add₀ (by norm_num), hshift,
          zpow_add₀ (by norm_num), zpow_sub₀ (by norm_num), zpow_natCast, zpow_natCast,
          zpow_natCast]
      have hunits : ((m * 2 ^ i : Nat) : ℚ) / n * 2 ^ (e + 1074) =
          m * 2 ^ k / (n * 2 ^ l) * 2 ^ 1074 := by
        calc ((m * 2 ^ i : Nat) : ℚ) / n * 2 ^ (e + 1074)
            = m / n * (2 ^ i * 2 ^ (e + 1074)) := by push_cast; ring
          _ = m * 2 ^ k / (n * 2 ^ l) * 2 ^ 1074 := by
            rw [hpow, mul_div_mul_comm, mul_assoc]
      rw [hunits] at hround
      rw [signedBy_div, ← signedBy_false (2 ^ 1074), signedBy_mul, Bool.xor_false]
      exact hround

end Stands

/-! ## Finite operands -/

section Finite

variable {x y : Float}

/-- The sum of finite doubles is the exact sum rounded. -/
theorem rounds_add (hx : isFinite x = true) (hy : isFinite y = true) :
    Rounds (x + y) (amount x + amount y) :=
  add_eq x y ▸ (stands_unpacked hx).add (stands_unpacked hy)

/-- The difference of finite doubles is the exact difference rounded. -/
theorem rounds_sub (hx : isFinite x = true) (hy : isFinite y = true) :
    Rounds (x - y) (amount x - amount y) :=
  sub_eq x y ▸ (stands_unpacked hx).sub (stands_unpacked hy)

/-- The product of finite doubles is the exact product rounded. -/
theorem rounds_mul (hx : isFinite x = true) (hy : isFinite y = true) :
    Rounds (x * y) (amount x * amount y / 2 ^ 1074) :=
  mul_eq x y ▸ (stands_unpacked hx).mul (stands_unpacked hy)

/-- The quotient of finite doubles is the exact quotient rounded, unless the divisor is zero. -/
theorem rounds_div (hx : isFinite x = true) (hy : isFinite y = true) (h : amount y ≠ 0) :
    Rounds (x / y) (amount x / amount y * 2 ^ 1074) :=
  div_eq x y ▸ (stands_unpacked hx).div (stands_unpacked hy) h

end Finite

/-! ## Infinite operands -/

section Infinite

variable {x y : Float} {s t : Bool}

/-- The shape of a double that is put together as infinity. -/
theorem ofFloat_ofUnpacked_infinity (s : Bool) :
    Shape.ofFloat (ofUnpacked (.infinity (signOf s))) = .infinite s := by
  rw [ofUnpacked_infinity, Shape.ofFloat_floatOfBits s le_rfl, Shape.ofBits_infinityBits]

/-- The unpacked form of a finite double. -/
theorem exists_unpacked (hx : isFinite x = true) : ∃ s,
    (Shape.ofFloat x).unpacked = .zero (signOf s) ∨
      ∃ m e h, (Shape.ofFloat x).unpacked = .finite (signOf s) m e h := by
  have hstands := stands_unpacked hx
  generalize (Shape.ofFloat x).unpacked = u at *
  generalize amount x = q at *
  cases hstands with
  | zero s => exact ⟨s, .inl rfl⟩
  | finite s h => exact ⟨s, .inr ⟨_, _, h, rfl⟩⟩

/-- The unpacked form of a finite double above zero. -/
theorem exists_unpacked_of_pos (hx : isFinite x = true) (h0 : 0 < amount x) :
    ∃ m e h, (Shape.ofFloat x).unpacked = .finite .positive m e h := by
  have hstands := stands_unpacked hx
  generalize (Shape.ofFloat x).unpacked = u at *
  generalize amount x = q at *
  cases hstands with
  | zero s => exact absurd h0 (lt_irrefl 0)
  | @finite s m k h =>
    cases s with
    | false => exact ⟨_, _, h, rfl⟩
    | true =>
      have : (0 : ℚ) ≤ m * 2 ^ k := by positivity
      rw [signedBy_true] at h0
      linarith

/-- A finite double and an infinite one add up to the infinite one. -/
theorem add_infinite (hx : isFinite x = true) (hy : Shape.ofFloat y = .infinite t) :
    Shape.ofFloat (x + y) = .infinite t := by
  rw [add_eq, hy]
  refine Eq.trans ?_ (ofFloat_ofUnpacked_infinity t)
  obtain ⟨s, h | ⟨m, e, h0, h⟩⟩ := exists_unpacked hx <;> rw [h] <;> rfl

/-- What is finite is nothing beside infinity. -/
theorem div_infinite (hx : isFinite x = true) (hy : Shape.ofFloat y = .infinite t) :
    isFinite (x / y) = true ∧ amount (x / y) = 0 := by
  obtain ⟨s, hs⟩ : ∃ s, x / y = Shape.floatOfBits s 0 := by
    obtain ⟨s, h⟩ := exists_unpacked hx
    refine ⟨s ^^ t, ?_⟩
    rw [div_eq, hy, ← ofUnpacked_zero, ← Stands.signOf_div]
    obtain h | ⟨m, e, h0, h⟩ := h <;> rw [h] <;> rfl
  rw [hs, isFinite_floatOfBits (Nat.zero_le _), amount_floatOfBits (Nat.zero_le _)]
  exact ⟨rfl, by simp [units]⟩

/-- The quotient of two infinite doubles is NaN. -/
theorem infinite_div_infinite (hx : Shape.ofFloat x = .infinite s)
    (hy : Shape.ofFloat y = .infinite t) : Shape.ofFloat (x / y) = .nan := by
  rw [div_eq, hx, hy]
  rfl

/-- Infinity divided by a finite double above zero. -/
theorem infinite_div (hx : Shape.ofFloat x = .infinite false) (hy : isFinite y = true)
    (h0 : 0 < amount y) : Shape.ofFloat (x / y) = .infinite false := by
  obtain ⟨m, e, hm, h⟩ := exists_unpacked_of_pos hy h0
  rw [div_eq, hx, h]
  exact ofFloat_ofUnpacked_infinity false

/-- Zero times infinity is NaN. -/
theorem zero_mul_infinite (hy : Shape.ofFloat y = .infinite t) : Shape.ofFloat (0 * y) = .nan := by
  have hzero : Shape.ofFloat 0 = .finite false 0 := rfl
  rw [mul_eq, hzero, hy]
  rfl

/-- A finite double above zero times infinity. -/
theorem mul_infinite (hx : isFinite x = true) (h0 : 0 < amount x)
    (hy : Shape.ofFloat y = .infinite false) : Shape.ofFloat (x * y) = .infinite false := by
  obtain ⟨m, e, hm, h⟩ := exists_unpacked_of_pos hx h0
  rw [mul_eq, hy, h]
  exact ofFloat_ofUnpacked_infinity false

/-- NaN stays in a sum. -/
theorem add_nan (hy : Shape.ofFloat y = .nan) : Shape.ofFloat (x + y) = .nan := by
  rw [add_eq, hy]
  cases (Shape.ofFloat x).unpacked <;> rfl

/-- NaN stays in a product. -/
theorem nan_mul (hx : Shape.ofFloat x = .nan) : Shape.ofFloat (x * y) = .nan := by
  rw [mul_eq, hx]
  rfl

end Infinite

end FormulaPlot
