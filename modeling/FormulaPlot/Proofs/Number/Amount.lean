import FormulaPlot.Number.Rounding
import FormulaPlot.Proofs.Number.Unpacked

/-!
# Doubles in order

`amount` is the number that a double stands for, in units of the least one. Infinity stands for the
magnitude that would follow the largest finite one, so that every double but NaN has a place among
the rational numbers, and the comparisons of doubles are those of their amounts (`le_iff`, `lt_iff`,
`beq_iff`).
-/

namespace FormulaPlot

open Float.Model Float.Model.UnpackedFloat Binary

/-- A magnitude with a sign. -/
def signedBy (s : Bool) (q : ℚ) : ℚ := if s then -q else q

@[simp] theorem signedBy_false (q : ℚ) : signedBy false q = q := rfl

@[simp] theorem signedBy_true (q : ℚ) : signedBy true q = -q := rfl

@[simp] theorem signedBy_zero (s : Bool) : signedBy s 0 = 0 := by cases s <;> simp

/-- Signs go with factors. -/
theorem signedBy_mul (s t : Bool) (q r : ℚ) :
    signedBy s q * signedBy t r = signedBy (s ^^ t) (q * r) := by
  cases s <;> cases t <;> simp

/-- Signs go with dividends and divisors. -/
theorem signedBy_div (s t : Bool) (q r : ℚ) :
    signedBy s q / signedBy t r = signedBy (s ^^ t) (q / r) := by
  cases s <;> cases t <;> simp [neg_div, div_neg]

/-- The sign does not matter for the distance from zero. -/
theorem abs_signedBy (s : Bool) {q : ℚ} (h : 0 ≤ q) : |signedBy s q| = q := by
  cases s <;> simp [abs_of_nonneg h]

/-- Numbers of one sign are as far apart as without it. -/
theorem abs_signedBy_sub (s : Bool) (a b : ℚ) : |signedBy s a - signedBy s b| = |a - b| := by
  cases s
  · rfl
  · rw [signedBy_true, signedBy_true, neg_sub_neg, abs_sub_comm]

@[simp] theorem withSign_false (n : Nat) : withSign false n = n := rfl

@[simp] theorem withSign_true (n : Nat) : withSign true n = -n := rfl

/-- A double that is not NaN. -/
def IsNumber (x : Float) : Prop := Shape.ofFloat x ≠ .nan

/-- The number of units in a double, where infinity counts as the magnitude past all finite ones. -/
def amount (x : Float) : ℚ :=
  match Shape.ofFloat x with
  | .nan => 0
  | .infinite s => signedBy s (units infinityBits)
  | .finite s bits => signedBy s (units bits)

/-! ## Doubles by their bits -/

section Bits

variable {s : Bool} {bits : Nat}

/-- The shape of the bits of a finite magnitude. -/
theorem Shape.ofBits_of_lt (h : bits < infinityBits) : ofBits s bits = .finite s bits := if_pos h

/-- The shape of the bits of infinity. -/
theorem Shape.ofBits_infinityBits : ofBits s infinityBits = .infinite s := by
  rw [ofBits, if_neg (Nat.lt_irrefl _), if_pos rfl]

/-- The bits of a magnitude up to infinity are those of a number. -/
theorem isNumber_floatOfBits (h : bits ≤ infinityBits) : IsNumber (Shape.floatOfBits s bits) := by
  rw [IsNumber, Shape.ofFloat_floatOfBits s h]
  rcases h.lt_or_eq with h | rfl
  · rw [Shape.ofBits_of_lt h]
    exact Shape.noConfusion
  · rw [Shape.ofBits_infinityBits]
    exact Shape.noConfusion

/-- The amount of a double by its bits. -/
theorem amount_floatOfBits (h : bits ≤ infinityBits) :
    amount (Shape.floatOfBits s bits) = signedBy s (units bits) := by
  rw [amount, Shape.ofFloat_floatOfBits s h]
  rcases h.lt_or_eq with h | rfl
  · rw [Shape.ofBits_of_lt h]
  · rw [Shape.ofBits_infinityBits]

/-- The doubles below infinity are finite. -/
theorem isFinite_floatOfBits (h : bits ≤ infinityBits) :
    isFinite (Shape.floatOfBits s bits) = decide (bits < infinityBits) := by
  rw [isFinite, Shape.ofFloat_floatOfBits s h]
  rcases h.lt_or_eq with h | rfl
  · rw [Shape.ofBits_of_lt h, decide_eq_true h]
  · rw [Shape.ofBits_infinityBits, decide_eq_false (Nat.lt_irrefl _)]

end Bits

/-- Every number has bits up to those of infinity. -/
theorem IsNumber.exists_bits {x : Float} (h : IsNumber x) :
    ∃ s bits, bits ≤ infinityBits ∧ x = Shape.floatOfBits s bits := by
  have hx := Shape.toFloat_ofFloat x
  cases hshape : Shape.ofFloat x with
  | nan => exact absurd hshape h
  | infinite s => exact ⟨s, infinityBits, le_rfl, by rw [← hx, hshape]; rfl⟩
  | finite s bits =>
    exact ⟨s, bits, (Shape.lt_of_ofFloat hshape).le, by rw [← hx, hshape]; rfl⟩

/-- Every finite double has bits below those of infinity. -/
theorem exists_bits_of_isFinite {x : Float} (h : isFinite x = true) :
    ∃ s bits, bits < infinityBits ∧ x = Shape.floatOfBits s bits := by
  have hx := Shape.toFloat_ofFloat x
  rw [isFinite] at h
  cases hshape : Shape.ofFloat x with
  | finite s bits => exact ⟨s, bits, Shape.lt_of_ofFloat hshape, by rw [← hx, hshape]; rfl⟩
  | nan => rw [hshape] at h; cases h
  | infinite s => rw [hshape] at h; cases h

/-- A double is finite if it is a number whose amount is below infinity. -/
theorem isFinite_iff {x : Float} :
    isFinite x = true ↔ IsNumber x ∧ |amount x| < units infinityBits := by
  constructor
  · intro h
    obtain ⟨s, bits, hb, rfl⟩ := exists_bits_of_isFinite h
    refine ⟨isNumber_floatOfBits hb.le, ?_⟩
    rw [amount_floatOfBits hb.le, abs_signedBy s (Nat.cast_nonneg _)]
    exact_mod_cast units_strictMono hb
  · rintro ⟨hx, hlt⟩
    obtain ⟨s, bits, hb, rfl⟩ := hx.exists_bits
    rw [amount_floatOfBits hb, abs_signedBy s (Nat.cast_nonneg _)] at hlt
    rw [isFinite_floatOfBits hb, decide_eq_true_iff, ← units_strictMono.lt_iff_lt]
    exact_mod_cast hlt

/-- A finite double is a number. -/
theorem isNumber_of_isFinite {x : Float} (h : isFinite x = true) : IsNumber x :=
  (isFinite_iff.1 h).1

/-- A number that is not finite is infinite, with its sign. -/
theorem IsNumber.ofFloat_eq_infinite {x : Float} (h : IsNumber x) (hinf : isFinite x ≠ true)
    (h0 : 0 ≤ amount x) : Shape.ofFloat x = .infinite false := by
  obtain ⟨s, bits, hb, rfl⟩ := h.exists_bits
  rw [isFinite_floatOfBits hb, ne_eq, decide_eq_true_iff] at hinf
  obtain rfl : bits = infinityBits := by omega
  have hpos : (0 : ℚ) < units infinityBits := by exact_mod_cast units_pos (by decide)
  rw [amount_floatOfBits hb] at h0
  cases s
  · rw [Shape.ofFloat_floatOfBits _ hb, Shape.ofBits_infinityBits]
  · rw [signedBy_true] at h0
    linarith

/-- A number between two finite doubles is finite. -/
theorem IsNumber.isFinite_of_between {x a b : Float} (h : IsNumber x) (ha : isFinite a = true)
    (hb : isFinite b = true) (hax : amount a ≤ amount x) (hxb : amount x ≤ amount b) :
    isFinite x = true := by
  have ha := (abs_lt.1 (isFinite_iff.1 ha).2).1
  have hb := (abs_lt.1 (isFinite_iff.1 hb).2).2
  exact isFinite_iff.2 ⟨h, abs_lt.2 ⟨by linarith, by linarith⟩⟩

/-! ## Order -/

/-- Signed magnitudes are in the order of their signed bits. -/
theorem signedBy_le_iff {s t : Bool} {b c : Nat} :
    signedBy s (units b) ≤ signedBy t (units c) ↔ withSign s b ≤ withSign t c := by
  have hle (b c : Nat) : (units b : ℚ) ≤ units c ↔ b ≤ c := by
    rw [Nat.cast_le, units_strictMono.le_iff_le]
  have hnonpos (b : Nat) : (units b : ℚ) ≤ 0 ↔ b ≤ 0 := hle b 0
  have hb : (0 : ℚ) ≤ units b := Nat.cast_nonneg _
  have hc : (0 : ℚ) ≤ units c := Nat.cast_nonneg _
  cases s <;> cases t <;> simp only [signedBy_false, signedBy_true, withSign_false, withSign_true]
  · rw [hle, Int.ofNat_le]
  · -- A magnitude is at most the negative of another only if both are zero.
    have hsplit : (units b : ℚ) ≤ -units c ↔ (units b : ℚ) ≤ 0 ∧ (units c : ℚ) ≤ 0 :=
      ⟨fun h => ⟨by linarith, by linarith⟩, fun h => by linarith [h.1, h.2]⟩
    rw [hsplit, hnonpos, hnonpos]
    omega
  · exact iff_of_true (by linarith) (by omega)
  · rw [neg_le_neg_iff, hle]
    omega

/-- Magnitudes are in the order of their scales, and those of one scale in the order of their
mantissas. -/
theorem compare_block (b c : Nat) :
    (compare ((scale b : Int) - 1074) (scale c - 1074)).then (compare (mantissa b) (mantissa c)) =
      compare b c := by
  obtain ⟨hb, hb', hb''⟩ := block_spec b
  obtain ⟨hc, hc', hc''⟩ := block_spec c
  rcases lt_trichotomy (scale b) (scale c) with h | h | h
  · rw [Int.compare_eq_lt.2 (by omega), Nat.compare_eq_lt.2 (show b < c by omega)]
    rfl
  · rw [Int.compare_eq_eq.2 (by omega)]
    rcases lt_trichotomy (mantissa b) (mantissa c) with h' | h' | h'
    · rw [Nat.compare_eq_lt.2 h', Nat.compare_eq_lt.2 (by omega)]
      rfl
    · rw [Nat.compare_eq_eq.2 h', Nat.compare_eq_eq.2 (by omega)]
      rfl
    · rw [Nat.compare_eq_gt.2 h', Nat.compare_eq_gt.2 (by omega)]
      rfl
  · rw [Int.compare_eq_gt.2 (by omega), Nat.compare_eq_gt.2 (show c < b by omega)]
    rfl

/-- What the unpacked form of a number can be. -/
theorem unpacked_cases (s : Bool) {b : Nat} (h : b ≤ infinityBits) :
    (b = infinityBits ∧ (Shape.ofBits s b).unpacked = .infinity (signOf s)) ∨
      (b = 0 ∧ (Shape.ofBits s b).unpacked = .zero (signOf s)) ∨
      (0 < b ∧ b < infinityBits ∧ ∃ hm : 0 < mantissa b, (Shape.ofBits s b).unpacked =
        .finite (signOf s) (mantissa b) (scale b - 1074) hm) := by
  obtain ⟨hbits, hblock, -⟩ := block_spec b
  rcases h.eq_or_lt with rfl | h
  · exact .inl ⟨rfl, by rw [Shape.ofBits_infinityBits]; rfl⟩
  · rw [Shape.ofBits_of_lt h]
    rcases Nat.eq_zero_or_pos (mantissa b) with h0 | h0
    · exact .inr (.inl ⟨by omega, Shape.unpacked_zero h0⟩)
    · exact .inr (.inr ⟨by omega, h, h0, Shape.unpacked_finite h0⟩)

/-- Bits with the same sign are compared as they are, or the other way round if they are
negative. -/
theorem compare_withSign (s : Bool) (b c : Nat) :
    compare (withSign s b) (withSign s c) = if s then (compare b c).swap else compare b c := by
  cases s <;> simp only [withSign_false, withSign_true, Bool.false_eq_true, if_true, if_false]
  all_goals rcases lt_trichotomy b c with h | h | h
  · rw [Int.compare_eq_lt.2 (by omega), Nat.compare_eq_lt.2 h]
  · rw [Int.compare_eq_eq.2 (by omega), Nat.compare_eq_eq.2 h]
  · rw [Int.compare_eq_gt.2 (by omega), Nat.compare_eq_gt.2 h]
  · rw [Int.compare_eq_gt.2 (by omega), Nat.compare_eq_lt.2 h, Ordering.swap_lt]
  · rw [Int.compare_eq_eq.2 (by omega), Nat.compare_eq_eq.2 h, Ordering.swap_eq]
  · rw [Int.compare_eq_lt.2 (by omega), Nat.compare_eq_gt.2 h, Ordering.swap_gt]

/-- Numbers are compared by their signed bits. -/
theorem compare_unpacked {s t : Bool} {b c : Nat} (hb : b ≤ infinityBits) (hc : c ≤ infinityBits) :
    (Shape.ofBits s b).unpacked.compare (Shape.ofBits t c).unpacked =
      some (compare (withSign s b) (withSign t c)) := by
  have hinf : 0 < infinityBits := by decide
  have hlt {i j : Int} (h : i < j) : some .lt = some (compare i j) := by
    rw [Int.compare_eq_lt.2 h]
  have hgt {i j : Int} (h : j < i) : some .gt = some (compare i j) := by
    rw [Int.compare_eq_gt.2 h]
  have heq {i j : Int} (h : i = j) : some .eq = some (compare i j) := by
    rw [Int.compare_eq_eq.2 h]
  have hb := unpacked_cases s hb
  have hc := unpacked_cases t hc
  generalize (Shape.ofBits s b).unpacked = u at *
  generalize (Shape.ofBits t c).unpacked = v at *
  generalize infinityBits = top at *
  rcases hb with ⟨rfl, rfl⟩ | ⟨rfl, rfl⟩ | ⟨h0, h1, hm, rfl⟩ <;>
    rcases hc with ⟨rfl, rfl⟩ | ⟨rfl, rfl⟩ | ⟨h2, h3, hm', rfl⟩
  case inr.inr.inr.inr =>
    -- Two numbers of the same sign are compared by scale and mantissa.
    cases s <;> cases t
    · exact congrArg some ((compare_block b c).trans (compare_withSign false b c).symm)
    · exact hgt (by simp only [withSign_false, withSign_true]; omega)
    · exact hlt (by simp only [withSign_false, withSign_true]; omega)
    · exact congrArg (some ∘ Ordering.swap) (compare_block b c) |>.trans
        (congrArg some (compare_withSign true b c).symm)
  -- In all other cases the signs or the kinds tell already.
  all_goals
    cases s <;> cases t <;>
      first
      | exact hlt (by simp only [withSign_false, withSign_true]; omega)
      | exact hgt (by simp only [withSign_false, withSign_true]; omega)
      | exact heq (by simp)

/-- The comparison of two doubles, which have none if one of them is NaN. -/
theorem compare_toModel (x y : Float) :
    (¬ (IsNumber x ∧ IsNumber y) ∧ x.toModel.unpack.compare y.toModel.unpack = none) ∨
      (IsNumber x ∧ IsNumber y ∧ ∃ i j : Int,
        x.toModel.unpack.compare y.toModel.unpack = some (compare i j) ∧
          (amount x ≤ amount y ↔ i ≤ j) ∧ (amount y ≤ amount x ↔ j ≤ i)) := by
  rw [unpack_toModel, unpack_toModel]
  by_cases hx : IsNumber x
  · by_cases hy : IsNumber y
    · obtain ⟨s, b, hb, rfl⟩ := hx.exists_bits
      obtain ⟨t, c, hc, rfl⟩ := hy.exists_bits
      refine .inr ⟨hx, hy, withSign s b, withSign t c, ?_, ?_, ?_⟩
      · rw [Shape.ofFloat_floatOfBits s hb, Shape.ofFloat_floatOfBits t hc, compare_unpacked hb hc]
      · rw [amount_floatOfBits hb, amount_floatOfBits hc, signedBy_le_iff]
      · rw [amount_floatOfBits hb, amount_floatOfBits hc, signedBy_le_iff]
    · refine .inl ⟨fun h => hy h.2, ?_⟩
      rw [not_not.1 hy]
      cases (Shape.ofFloat x).unpacked <;> rfl
  · refine .inl ⟨fun h => hx h.1, ?_⟩
    rw [not_not.1 hx]
    rfl

/-- Doubles are in the order of their amounts. -/
theorem le_iff {x y : Float} : x ≤ y ↔ IsNumber x ∧ IsNumber y ∧ amount x ≤ amount y := by
  have hle : x ≤ y ↔ (x.toModel.unpack.compare y.toModel.unpack).any (·.isLE) = true := by
    -- The relation on doubles is decided by the comparison of their unpacked forms.
    change decide (_ = true) = true ↔ _
    rw [decide_eq_true_iff]
    rfl
  rw [hle]
  rcases compare_toModel x y with ⟨hnan, h⟩ | ⟨hx, hy, i, j, h, hij, -⟩
  · rw [h]
    exact iff_of_false Bool.false_ne_true fun h => hnan ⟨h.1, h.2.1⟩
  · rw [h, and_iff_right hx, and_iff_right hy, hij, ← Int.isLE_compare]
    rfl

/-- Infinity is past every finite double. -/
theorem le_of_ofFloat_eq_infinite {x y : Float} (hx : Shape.ofFloat x = .infinite false)
    (hy : isFinite y = true) : y ≤ x := by
  have hlt := (abs_lt.1 (isFinite_iff.1 hy).2).2
  have hamount : amount x = units infinityBits := by
    rw [amount, hx]
    rfl
  have hnumber : IsNumber x := by
    rw [IsNumber, hx]
    exact Shape.noConfusion
  exact le_iff.2 ⟨isNumber_of_isFinite hy, hnumber, by rw [hamount]; exact hlt.le⟩

/-- Doubles are in the strict order of their amounts. -/
theorem lt_iff {x y : Float} : x < y ↔ IsNumber x ∧ IsNumber y ∧ amount x < amount y := by
  have hlt : x < y ↔ (x.toModel.unpack.compare y.toModel.unpack == some .lt) = true := by
    change decide (_ = true) = true ↔ _
    rw [decide_eq_true_iff]
    rfl
  rw [hlt]
  rcases compare_toModel x y with ⟨hnan, h⟩ | ⟨hx, hy, i, j, h, -, hji⟩
  · rw [h]
    exact iff_of_false Bool.false_ne_true fun h => hnan ⟨h.1, h.2.1⟩
  · rw [h, and_iff_right hx, and_iff_right hy, ← not_le, hji, not_le, ← Int.compare_eq_lt,
      beq_iff_eq, Option.some_inj]

/-- Doubles are equal if their amounts are. -/
theorem beq_iff {x y : Float} :
    (x == y) = true ↔ IsNumber x ∧ IsNumber y ∧ amount x = amount y := by
  have heq : (x == y) = (x.toModel.unpack.compare y.toModel.unpack == some .eq) := rfl
  rw [heq]
  rcases compare_toModel x y with ⟨hnan, h⟩ | ⟨hx, hy, i, j, h, hij, hji⟩
  · rw [h]
    exact iff_of_false Bool.false_ne_true fun h => hnan ⟨h.1, h.2.1⟩
  · have hamount : amount x = amount y ↔ i = j := by
      rw [le_antisymm_iff, hij, hji, ← le_antisymm_iff]
    rw [h, and_iff_right hx, and_iff_right hy, hamount, ← Int.compare_eq_eq, beq_iff_eq,
      Option.some_inj]

end FormulaPlot
