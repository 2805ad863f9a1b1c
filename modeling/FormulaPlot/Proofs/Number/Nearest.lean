import Mathlib.Algebra.Order.Field.Rat
import Mathlib.Data.Nat.Cast.Order.Field
import Mathlib.Tactic.Linarith
import Mathlib.Tactic.NormNum
import Mathlib.Tactic.Positivity
import Mathlib.Tactic.Ring
import FormulaPlot.Number.Binary

/-!
# The magnitude nearest to a quotient

`ReadsAs bits q` says that the magnitude with these bits is the one nearest to `q` units, a half
going to the even bits: `q` lies between the points halfway to the two neighbours, and on one of
them only if the bits are even. `exists_nearest` shows that `nearest` finds such bits for every
quotient, or those of infinity past the largest finite magnitude.

The magnitudes come in blocks in which neighbours are `2 ^ k` units apart (`units_block`).
Rounding a number of steps of a block gives a magnitude that it reads as (`readsAs_round`), and no
quotient reads as two of them (`readsAs_unique`).
-/

namespace FormulaPlot.Binary

/-- The number of units halfway from a magnitude to the one below it. -/
def lowEnd (bits : Nat) : ℚ := (units (bits - 1) + units bits) / 2

/-- The number of units halfway from a magnitude to the one above it. -/
def highEnd (bits : Nat) : ℚ := (units bits + units (bits + 1)) / 2

/-- The magnitude with these bits is the nearest one to a number of units. -/
def ReadsAs (bits : Nat) (q : ℚ) : Prop :=
  if bits % 2 = 0 then lowEnd bits ≤ q ∧ q ≤ highEnd bits else lowEnd bits < q ∧ q < highEnd bits

/-- Strictly between its ends a number reads as the magnitude. -/
theorem readsAs_of_lt {bits : Nat} {q : ℚ} (hl : lowEnd bits < q) (hh : q < highEnd bits) :
    ReadsAs bits q := by
  unfold ReadsAs
  split
  · exact ⟨hl.le, hh.le⟩
  · exact ⟨hl, hh⟩

/-- A number that reads as a magnitude is between its ends. -/
theorem ReadsAs.le {bits : Nat} {q : ℚ} (h : ReadsAs bits q) :
    lowEnd bits ≤ q ∧ q ≤ highEnd bits := by
  unfold ReadsAs at h
  split at h
  · exact h
  · exact ⟨h.1.le, h.2.le⟩

/-- The units of a magnitude by its exponent and its mantissa. -/
theorem units_eq (bits : Nat) : units bits =
    if bits < 2 ^ 53 then bits else (2 ^ 52 + bits % 2 ^ 52) * 2 ^ (bits / 2 ^ 52 - 1) := rfl

/-- In the block of a power of two the magnitudes are that power apart. Each block goes on to the
first magnitude of the next one. -/
theorem units_block {k r : Nat} (h : k = 0 ∨ 2 ^ 52 ≤ r) (hr : r ≤ 2 ^ 53) :
    units (k * 2 ^ 52 + r) = r * 2 ^ k := by
  rcases Nat.lt_or_ge (k * 2 ^ 52 + r) (2 ^ 53) with hlt | hge
  · have hk : k = 0 := by omega
    subst hk
    rw [units_eq, if_pos hlt]
    simp
  · rw [units_eq, if_neg (by omega)]
    -- Either the mantissa is one of the block, or it is past its end, where the next block begins.
    rcases Nat.lt_or_eq_of_le hr with hr | rfl
    · obtain ⟨j, rfl⟩ : ∃ j, r = 2 ^ 52 + j := ⟨r - 2 ^ 52, by omega⟩
      rw [show (k * 2 ^ 52 + (2 ^ 52 + j)) % 2 ^ 52 = j by omega,
        show (k * 2 ^ 52 + (2 ^ 52 + j)) / 2 ^ 52 - 1 = k by omega]
    · rw [show (k * 2 ^ 52 + 2 ^ 53) % 2 ^ 52 = 0 by omega,
        show (k * 2 ^ 52 + 2 ^ 53) / 2 ^ 52 - 1 = k + 1 by omega, Nat.add_zero, pow_succ,
        show (2 : Nat) ^ 53 = 2 ^ 52 * 2 by norm_num]
      ring

/-- Every magnitude is in a block. -/
theorem exists_block (bits : Nat) :
    ∃ k r, bits = k * 2 ^ 52 + r ∧ (k = 0 ∨ 2 ^ 52 ≤ r) ∧ r < 2 ^ 53 := by
  rcases Nat.lt_or_ge bits (2 ^ 53) with h | h
  · exact ⟨0, bits, by omega, .inl rfl, h⟩
  · exact ⟨bits / 2 ^ 52 - 1, 2 ^ 52 + bits % 2 ^ 52, by omega, .inr (by omega), by omega⟩

/-- The next magnitude is larger. -/
theorem units_lt_succ (bits : Nat) : units bits < units (bits + 1) := by
  obtain ⟨k, r, rfl, hk, hr⟩ := exists_block bits
  rw [units_block hk hr.le, Nat.add_assoc, units_block (hk.imp_right fun h => by omega) hr]
  have : 0 < 2 ^ k := by positivity
  nlinarith

/-- Larger bits are those of larger magnitudes. -/
theorem units_strictMono : StrictMono units := strictMono_nat_of_lt_succ units_lt_succ

/-- Positive bits are those of positive magnitudes. -/
theorem units_pos {bits : Nat} (h : 0 < bits) : 0 < units bits := units_strictMono h

/-- Zero reads as the magnitude with bits zero. -/
theorem readsAs_zero : ReadsAs 0 0 := by
  unfold ReadsAs lowEnd highEnd
  rw [if_pos rfl]
  norm_num [units]

/-- The lower end of a positive magnitude is below it. -/
theorem lowEnd_lt {bits : Nat} (h : 0 < bits) : lowEnd bits < units bits := by
  have hlt : (units (bits - 1) : ℚ) < units bits := by
    exact_mod_cast units_strictMono (by omega : bits - 1 < bits)
  unfold lowEnd
  linarith

/-- No number reads as two magnitudes. -/
theorem readsAs_unique {b c : Nat} {q : ℚ} (hb : ReadsAs b q) (hc : ReadsAs c q) : b = c := by
  by_contra hne
  wlog hlt : b < c generalizing b c
  · exact this hc hb (Ne.symm hne) (by omega)
  have hb' := hb.le
  have hc' := hc.le
  have h1 : units (b + 1) ≤ units c := units_strictMono.monotone hlt
  have h2 : units b ≤ units (c - 1) := units_strictMono.monotone (by omega)
  have h1' : (units (b + 1) : ℚ) ≤ units c := by exact_mod_cast h1
  have h2' : (units b : ℚ) ≤ units (c - 1) := by exact_mod_cast h2
  unfold lowEnd highEnd at *
  -- The ends meet only between neighbours, of which one has odd bits.
  have he : (units b + units (b + 1) : ℚ) / 2 = (units (c - 1) + units c) / 2 := by linarith
  have hbq : q = (units b + units (b + 1) : ℚ) / 2 := by linarith
  have hc1 : c = b + 1 := by
    have : (units (b + 1) : ℚ) = units c := by linarith
    have : units (b + 1) = units c := by exact_mod_cast this
    exact (units_strictMono.injective this).symm
  subst hc1
  unfold ReadsAs lowEnd highEnd at hb hc
  rw [Nat.add_sub_cancel] at hc
  split at hb
  · rw [if_neg (by omega)] at hc
    linarith
  · linarith

/-- A quotient rounded to a natural number is at most a half away from it, and less if that number
is odd. -/
theorem roundDiv_spec (n : Nat) {d : Nat} (hd : 0 < d) :
    2 * (d * roundDiv n d) ≤ 2 * n + d ∧ 2 * n ≤ 2 * (d * roundDiv n d) + d ∧
      (roundDiv n d % 2 = 1 → 2 * (d * roundDiv n d) < 2 * n + d ∧
        2 * n < 2 * (d * roundDiv n d) + d) := by
  have hn := Nat.div_add_mod n d
  have hm := Nat.mod_lt n hd
  have hs : d * (n / d + 1) = d * (n / d) + d := by ring
  unfold roundDiv
  simp only
  split
  · omega
  · split
    · rw [hs]; omega
    · -- Of the two neighbours of a half the even one is taken, so an odd result is no half.
      rcases Nat.mod_two_eq_zero_or_one (n / d) with h | h
      · rw [h, Nat.add_zero]; omega
      · rw [h, hs]; omega

/-- The same about the quotient itself. -/
theorem roundDiv_bounds (n : Nat) {d : Nat} (hd : 0 < d) :
    (roundDiv n d : ℚ) - 1 / 2 ≤ n / d ∧ (n / d : ℚ) ≤ roundDiv n d + 1 / 2 ∧
      (roundDiv n d % 2 = 1 →
        (roundDiv n d : ℚ) - 1 / 2 < n / d ∧ (n / d : ℚ) < roundDiv n d + 1 / 2) := by
  obtain ⟨h1, h2, h3⟩ := roundDiv_spec n hd
  have hd' : (0 : ℚ) < d := by exact_mod_cast hd
  have h1' : (2 * (d * roundDiv n d) : ℚ) ≤ 2 * n + d := by exact_mod_cast h1
  have h2' : (2 * n : ℚ) ≤ 2 * (d * roundDiv n d) + d := by exact_mod_cast h2
  refine ⟨?_, ?_, fun hodd => ?_⟩
  · rw [le_div_iff₀ hd']; linarith
  · rw [div_le_iff₀ hd']; linarith
  · obtain ⟨h4, h5⟩ := h3 hodd
    have h4' : (2 * (d * roundDiv n d) : ℚ) < 2 * n + d := by exact_mod_cast h4
    have h5' : (2 * n : ℚ) < 2 * (d * roundDiv n d) + d := by exact_mod_cast h5
    constructor
    · rw [lt_div_iff₀ hd']; linarith
    · rw [div_lt_iff₀ hd']; linarith

/-- Rounding goes down or up by less than one. -/
theorem roundDiv_between (n d : Nat) : n / d ≤ roundDiv n d ∧ roundDiv n d ≤ n / d + 1 := by
  unfold roundDiv
  simp only
  split
  · omega
  · split <;> omega

/-- A number of steps of a block is rounded to a mantissa of that block. -/
theorem roundDiv_block {n d k : Nat} (hk : k = 0 ∨ 2 ^ 52 ≤ n / d) (hlt : n / d < 2 ^ 53) :
    (k = 0 ∨ 2 ^ 52 ≤ roundDiv n d) ∧ roundDiv n d ≤ 2 ^ 53 := by
  obtain ⟨hge, hle⟩ := roundDiv_between n d
  exact ⟨hk.imp_right fun h => h.trans hge, by omega⟩

/-- Inside a block the lower end is half a step away. -/
theorem lowEnd_block {k r : Nat} (h : k = 0 ∨ 2 ^ 52 < r) (h0 : 0 < r) (hr : r ≤ 2 ^ 53) :
    lowEnd (k * 2 ^ 52 + r) = (r - 1 / 2) * 2 ^ k := by
  have hp := units_block (k := k) (r := r - 1) (h.imp_right (by omega)) (by omega)
  rw [← Nat.add_sub_assoc h0] at hp
  rw [lowEnd, hp, units_block (h.imp_right Nat.le_of_lt) hr, Nat.cast_mul, Nat.cast_mul,
    Nat.cast_sub h0]
  push_cast
  ring

/-- The upper end is at least half a step of the block away. -/
theorem le_highEnd_block {k r : Nat} (h : k = 0 ∨ 2 ^ 52 ≤ r) (hr : r ≤ 2 ^ 53) :
    (r + 1 / 2 : ℚ) * 2 ^ k ≤ highEnd (k * 2 ^ 52 + r) := by
  have hnext : (r + 1) * 2 ^ k ≤ units (k * 2 ^ 52 + r + 1) := by
    rcases Nat.lt_or_eq_of_le hr with hr | rfl
    · rw [Nat.add_assoc, units_block (h.imp_right fun h => by omega) hr]
    · -- The last magnitude of a block is followed by one of the next.
      rw [show k * 2 ^ 52 + 2 ^ 53 + 1 = (k + 1) * 2 ^ 52 + (2 ^ 52 + 1) by ring,
        units_block (.inr (by omega)) (by omega), pow_succ 2 k]
      omega
  have hnext' : ((r + 1) * 2 ^ k : ℚ) ≤ units (k * 2 ^ 52 + r + 1) := by exact_mod_cast hnext
  rw [highEnd, units_block h hr]
  generalize units (k * 2 ^ 52 + r + 1) = u at hnext'
  push_cast
  linarith

/-- A number of steps of a block reads as the magnitude to which it is rounded. -/
theorem readsAs_round {n d k : Nat} (hd : 0 < d) (hk : k = 0 ∨ 2 ^ 52 ≤ n / d)
    (hlt : n / d < 2 ^ 53) : ReadsAs (k * 2 ^ 52 + roundDiv n d) (n / d * 2 ^ k) := by
  obtain ⟨hr, hr'⟩ := roundDiv_block hk hlt
  have hpow : (0 : ℚ) < 2 ^ k := by positivity
  have hd' : (0 : ℚ) < d := by exact_mod_cast hd
  have hbounds := roundDiv_bounds n hd
  generalize roundDiv n d = r at *
  have h1 := mul_le_mul_of_nonneg_right hbounds.1 hpow.le
  have h2 := mul_le_mul_of_nonneg_right hbounds.2.1 hpow.le
  have h3 (hodd : r % 2 = 1) := And.intro (mul_lt_mul_of_pos_right (hbounds.2.2 hodd).1 hpow)
    (mul_lt_mul_of_pos_right (hbounds.2.2 hodd).2 hpow)
  -- Above, the distance to the end is half a step of the block or more.
  have hhigh := le_highEnd_block hr hr'
  -- Below, it is half a step but at the first magnitude of a block, which the quotient is not
  -- below, and at zero.
  have hlow : lowEnd (k * 2 ^ 52 + r) < n / d * 2 ^ k ∨
      lowEnd (k * 2 ^ 52 + r) = (r - 1 / 2) * 2 ^ k ∨
      (r = 0 ∧ lowEnd (k * 2 ^ 52 + r) ≤ n / d * 2 ^ k) := by
    rcases Nat.eq_zero_or_pos r with rfl | h0
    · obtain rfl : k = 0 := by omega
      exact .inr (.inr ⟨rfl, by simp [lowEnd, units]; positivity⟩)
    · by_cases h : k = 0 ∨ 2 ^ 52 < r
      · exact .inr (.inl (lowEnd_block h h0 hr'))
      · -- The first magnitude of a block is not below the quotient.
        obtain rfl : r = 2 ^ 52 := by omega
        refine .inl (lt_of_lt_of_le (lowEnd_lt (by omega)) ?_)
        have hsteps : 2 ^ 52 ≤ n / d := by omega
        rw [Nat.le_div_iff_mul_le hd] at hsteps
        rw [units_block hr hr', Nat.cast_mul, Nat.cast_pow 2 k, Nat.cast_ofNat]
        refine mul_le_mul_of_nonneg_right ?_ hpow.le
        rw [le_div_iff₀ hd']
        exact_mod_cast hsteps
  have hparity : (k * 2 ^ 52 + r) % 2 = r % 2 := by omega
  unfold ReadsAs
  rw [hparity]
  split
  next heven =>
    refine ⟨?_, by linarith⟩
    rcases hlow with h | h | h
    · exact h.le
    · rw [h]; exact h1
    · exact h.2
  next hodd =>
    obtain ⟨h4, h5⟩ := h3 (by omega)
    refine ⟨?_, by linarith⟩
    rcases hlow with h | h | ⟨rfl, -⟩
    · exact h
    · rw [h]; exact h4
    · omega

/-- `nearest` gives the bits of the magnitude as which a quotient reads, up to infinity. -/
theorem exists_nearest (n : Nat) {d : Nat} (hd : 0 < d) :
    ∃ bits, nearest n d = min infinityBits bits ∧ ReadsAs bits ((n : ℚ) * 2 ^ 1074 / d) := by
  have hnearest : nearest n d = min infinityBits (((n * 2 ^ 1074 / d).log2 - 52) * 2 ^ 52 +
      roundDiv (n * 2 ^ 1074) (d * 2 ^ ((n * 2 ^ 1074 / d).log2 - 52))) := rfl
  refine ⟨_, hnearest, ?_⟩
  rw [show (n : ℚ) * 2 ^ 1074 = (n * 2 ^ 1074 : Nat) by rw [Nat.cast_mul, Nat.cast_pow]; rfl]
  generalize n * 2 ^ 1074 = m
  have hlt := Nat.lt_log2_self (n := m / d)
  generalize hk : (m / d).log2 - 52 = k
  have hpow : 0 < 2 ^ k := by positivity
  -- In steps of `2 ^ k` the quotient has a mantissa of 53 bits, or fewer in the first block.
  have hround := readsAs_round (n := m) (d := d * 2 ^ k) (k := k) (by positivity) ?_ ?_
  · rwa [Nat.cast_mul, Nat.cast_pow, Nat.cast_ofNat, ← div_div,
      div_mul_cancel₀ _ (by positivity)] at hround
  · rcases Nat.eq_zero_or_pos k with h0 | h0
    · exact .inl h0
    · right
      rw [← Nat.div_div_eq_div_mul, Nat.le_div_iff_mul_le hpow, ← pow_add,
        show 52 + k = (m / d).log2 by omega]
      apply Nat.log2_self_le
      intro h0
      rw [h0] at hk
      have : Nat.log2 0 = 0 := rfl
      omega
  · rw [← Nat.div_div_eq_div_mul, Nat.div_lt_iff_lt_mul hpow, ← pow_add]
    exact lt_of_lt_of_le hlt (Nat.pow_le_pow_right (by norm_num) (by omega))

end FormulaPlot.Binary
