import FormulaPlot.Proofs.Number.Amount

/-!
# Doubles nearest to numbers

`Rounds x q` says that `x` is the double to which a number of units is rounded: the nearest one, a
half going to the even bits, where infinity stands past the largest finite magnitude. Rounding keeps
order (`Rounds.le`), leaves doubles as they are (`rounds_amount`), and no double is nearer to a
number than the one to which it is rounded (`Rounds.nearest`).
-/

namespace FormulaPlot

open Binary

namespace Binary

/-- Only numbers that are not negative read as magnitudes. -/
theorem ReadsAs.nonneg {bits : Nat} {q : ℚ} (h : ReadsAs bits q) : 0 ≤ q := by
  refine le_trans ?_ h.le.1
  unfold lowEnd
  positivity

/-- A magnitude reads as itself. -/
theorem readsAs_units (bits : Nat) : ReadsAs bits (units bits) := by
  rcases Nat.eq_zero_or_pos bits with rfl | h
  · exact_mod_cast readsAs_zero
  · refine readsAs_of_lt (lowEnd_lt h) ?_
    have hlt : (units bits : ℚ) < units (bits + 1) := by exact_mod_cast units_lt_succ bits
    unfold highEnd
    linarith

/-- Larger numbers read as larger magnitudes. -/
theorem readsAs_mono {b c : Nat} {q r : ℚ} (hb : ReadsAs b q) (hc : ReadsAs c r) (h : q ≤ r) :
    b ≤ c := by
  by_contra hlt
  rw [not_le] at hlt
  have h1 : (units (c + 1) : ℚ) ≤ units b := by exact_mod_cast units_strictMono.monotone hlt
  have h2 : (units c : ℚ) ≤ units (b - 1) := by
    exact_mod_cast units_strictMono.monotone (by omega : c ≤ b - 1)
  have hb' := hb.le.1
  have hc' := hc.le.2
  unfold lowEnd at hb'
  unfold highEnd at hc'
  -- The two numbers are the same, and no number reads as two magnitudes.
  obtain rfl : q = r := by linarith
  exact hlt.ne' (readsAs_unique hb hc)

/-- No magnitude up to infinity is nearer to a number than the one as which it reads. -/
theorem ReadsAs.nearest {b c : Nat} {q : ℚ} (h : ReadsAs b q) (hc : c ≤ infinityBits) :
    |units (min infinityBits b) - q| ≤ |units c - q| := by
  have hmono {i j : Nat} (hij : i ≤ j) : (units i : ℚ) ≤ units j := by
    exact_mod_cast units_strictMono.monotone hij
  obtain ⟨hlow, hhigh⟩ := h.le
  unfold lowEnd at hlow
  unfold highEnd at hhigh
  rcases lt_trichotomy c (min infinityBits b) with hlt | rfl | hgt
  · have hdist : q - units c ≤ |units c - q| := by
      rw [abs_sub_comm]
      exact le_abs_self _
    rcases le_total b infinityBits with hb | hb
    · -- The number is no nearer to the magnitude below.
      rw [Nat.min_eq_right hb] at hlt ⊢
      have h1 := hmono (show c ≤ b - 1 by omega)
      have h2 := hmono (show c ≤ b by omega)
      rw [abs_le]
      constructor <;> linarith
    · -- The number is past the magnitude that stands for infinity.
      rw [Nat.min_eq_left hb] at hlt ⊢
      have h1 := hmono (show infinityBits ≤ b by omega)
      have h2 := hmono (show c ≤ infinityBits by omega)
      rcases Nat.eq_or_lt_of_le hb with rfl | hb
      · have h3 := hmono (show c ≤ infinityBits - 1 by omega)
        rw [abs_le]
        constructor <;> linarith
      · have h3 := hmono (show infinityBits ≤ b - 1 by omega)
        rw [abs_le]
        constructor <;> linarith
  · exact le_rfl
  · -- The number is no nearer to the magnitude above.
    have hdist : units c - q ≤ |units c - q| := le_abs_self _
    rw [show min infinityBits b = b by omega] at hgt ⊢
    have h1 := hmono (show b + 1 ≤ c by omega)
    have h2 := hmono (show b ≤ c by omega)
    rw [abs_le]
    constructor <;> linarith

/-- All other magnitudes are farther from a number than the one as which it reads, if that has odd
bits. -/
theorem ReadsAs.nearer {b c : Nat} {q : ℚ} (h : ReadsAs b q) (hodd : b % 2 = 1) (hne : c ≠ b) :
    |units b - q| < |units c - q| := by
  have hmono {i j : Nat} (hij : i ≤ j) : (units i : ℚ) ≤ units j := by
    exact_mod_cast units_strictMono.monotone hij
  have hstrict {i j : Nat} (hij : i < j) : (units i : ℚ) < units j := by
    exact_mod_cast units_strictMono hij
  unfold ReadsAs lowEnd highEnd at h
  rw [if_neg (by omega)] at h
  obtain ⟨hlow, hhigh⟩ := h
  rcases Nat.lt_or_gt_of_ne hne with hlt | hgt
  · have h1 := hmono (show c ≤ b - 1 by omega)
    have h2 := hstrict (show b - 1 < b by omega)
    have hdist : q - units c ≤ |units c - q| := by
      rw [abs_sub_comm]
      exact le_abs_self _
    refine lt_of_lt_of_le (abs_lt.2 ⟨?_, ?_⟩) hdist <;> linarith
  · have h1 := hmono (show b + 1 ≤ c by omega)
    have h2 := hstrict (show b < b + 1 by omega)
    refine lt_of_lt_of_le (abs_lt.2 ⟨?_, ?_⟩) (le_abs_self _) <;> linarith

end Binary

/-- The double to which a number of units is rounded. Zero may be rounded to either zero. -/
def Rounds (x : Float) (q : ℚ) : Prop :=
  ∃ s bits m, ReadsAs bits m ∧ q = signedBy s m ∧ x = Shape.floatOfBits s (min infinityBits bits)

namespace Rounds

variable {x y : Float} {q r : ℚ}

/-- What a number is rounded to is a number. -/
theorem isNumber (h : Rounds x q) : IsNumber x := by
  obtain ⟨s, bits, m, -, -, rfl⟩ := h
  exact isNumber_floatOfBits (Nat.min_le_left _ _)

/-- Rounding keeps order. -/
theorem le (hx : Rounds x q) (hy : Rounds y r) (h : q ≤ r) : amount x ≤ amount y := by
  obtain ⟨s, b, m, hb, rfl, rfl⟩ := hx
  obtain ⟨t, c, n, hc, rfl, rfl⟩ := hy
  have hmono {i j : Nat} (hij : i ≤ j) :
      (units (min infinityBits i) : ℚ) ≤ units (min infinityBits j) := by
    exact_mod_cast units_strictMono.monotone (min_le_min_left _ hij)
  have hm := hb.nonneg
  have hn := hc.nonneg
  have hb0 := hmono (Nat.zero_le b)
  have hc0 := hmono (Nat.zero_le c)
  rw [Nat.min_eq_right (Nat.zero_le _), show units 0 = 0 from rfl, Nat.cast_zero] at hb0 hc0
  rw [amount_floatOfBits (Nat.min_le_left _ _), amount_floatOfBits (Nat.min_le_left _ _)]
  cases s <;> cases t <;> simp only [signedBy_false, signedBy_true] at h ⊢
  · exact hmono (readsAs_mono hb hc h)
  · -- Both numbers are zero.
    obtain rfl : m = 0 := by linarith
    obtain rfl : n = 0 := by linarith
    rw [readsAs_unique hb readsAs_zero, readsAs_unique hc readsAs_zero]
    exact le_of_eq (by simp [units])
  · linarith
  · exact neg_le_neg (hmono (readsAs_mono hc hb (neg_le_neg_iff.1 h)))

/-- All doubles to which a number is rounded have the same amount. -/
theorem amount_eq (hx : Rounds x q) (hy : Rounds y q) : amount x = amount y :=
  le_antisymm (hx.le hy le_rfl) (hy.le hx le_rfl)

/-- What is not negative is not rounded to a negative double. -/
theorem nonneg (h : Rounds x q) (h0 : 0 ≤ q) : 0 ≤ amount x := by
  have hzero : Rounds (Shape.floatOfBits false 0) 0 := ⟨false, 0, 0, readsAs_zero, rfl, rfl⟩
  have hle := hzero.le h h0
  rw [amount_floatOfBits (Nat.zero_le _)] at hle
  simpa [units] using hle

/-- The order of the distances from zero is kept, too. -/
theorem abs_le (hx : Rounds x q) (hy : Rounds y r) (h : |q| ≤ |r|) :
    |amount x| ≤ |amount y| := by
  obtain ⟨s, b, m, hb, rfl, rfl⟩ := hx
  obtain ⟨t, c, n, hc, rfl, rfl⟩ := hy
  rw [abs_signedBy s hb.nonneg, abs_signedBy t hc.nonneg] at h
  rw [amount_floatOfBits (Nat.min_le_left _ _), amount_floatOfBits (Nat.min_le_left _ _),
    abs_signedBy s (Nat.cast_nonneg _), abs_signedBy t (Nat.cast_nonneg _)]
  exact_mod_cast units_strictMono.monotone (min_le_min_left _ (readsAs_mono hb hc h))

/-- No finite double is nearer to a number than the one to which it is rounded. -/
theorem nearest (hx : Rounds x q) (hy : isFinite y = true) :
    |amount x - q| ≤ |amount y - q| := by
  obtain ⟨s, b, m, hb, rfl, rfl⟩ := hx
  obtain ⟨t, c, hc, rfl⟩ := exists_bits_of_isFinite hy
  rw [amount_floatOfBits (Nat.min_le_left _ _), amount_floatOfBits hc.le]
  -- Leaving out the signs brings two numbers no farther apart.
  have hapart := abs_abs_sub_abs_le (signedBy t (units c)) (signedBy s m)
  rw [abs_signedBy t (Nat.cast_nonneg _), abs_signedBy s hb.nonneg] at hapart
  rw [abs_signedBy_sub]
  exact (hb.nearest hc.le).trans hapart

/-- What is no farther from zero than a finite double is rounded to a finite one. -/
theorem isFinite_of_le (hx : Rounds x q) (hy : Rounds y r) (hfinite : isFinite y = true)
    (h : |q| ≤ |r|) : isFinite x = true :=
  isFinite_iff.2 ⟨hx.isNumber, (hx.abs_le hy h).trans_lt (isFinite_iff.1 hfinite).2⟩

end Rounds

/-- A finite double is what its amount is rounded to. -/
theorem rounds_amount {x : Float} (h : isFinite x = true) : Rounds x (amount x) := by
  obtain ⟨s, bits, hb, rfl⟩ := exists_bits_of_isFinite h
  refine ⟨s, bits, units bits, readsAs_units bits, amount_floatOfBits hb.le, ?_⟩
  rw [Nat.min_eq_right hb.le]

end FormulaPlot
