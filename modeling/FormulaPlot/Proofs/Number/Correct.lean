import FormulaPlot.Proofs.Number.Accepted
import FormulaPlot.Proofs.Number.Rounding

/-!
# Literals are read as the nearest doubles

`IsNearest` says what the double is to which a decimal number must be rounded. Only one double is
(`IsNearest.unique`), and it is the one as which every decimal is read (`isNearest_toFloat`).

So what `readNumber` does with a text is settled by the grammar (`readNumber_grammar`): it gives the
double of a name, or the one nearest to the number that is written, and it fails on all other texts.
-/

namespace FormulaPlot

open Binary Decimal

/-- The double nearest to a number with a sign: infinite from halfway between the largest finite
double and the next power of two on, and else a finite one. No finite double is nearer to the
number, and if another one is as near, the bits are even. The sign is kept also by a zero. -/
structure IsNearest (negative : Bool) (q : ℚ) (x : Float) : Prop where
  isNumber : IsNumber x
  sign : (Shape.ofFloat x).negative = negative
  overflow : isFinite x ≠ true ↔ 2 ^ 1024 - 2 ^ 970 ≤ q
  near : isFinite x = true → ∀ y, isFinite y = true →
    |amount x - signedBy negative q * unitsInOne| ≤ |amount y - signedBy negative q * unitsInOne|
  even : isFinite x = true → ∀ y, isFinite y = true → amount y ≠ amount x →
    |amount x - signedBy negative q * unitsInOne| = |amount y - signedBy negative q * unitsInOne| →
    x.toBits.toNat % 2 = 0

section Bits

variable {s : Bool} {bits : Nat}

/-- The sign of a double by its bits. -/
theorem negative_floatOfBits (h : bits ≤ infinityBits) :
    (Shape.ofFloat (Shape.floatOfBits s bits)).negative = s := by
  rw [Shape.ofFloat_floatOfBits s h]
  rcases h.lt_or_eq with h | rfl
  · rw [Shape.ofBits_of_lt h]
    rfl
  · rw [Shape.ofBits_infinityBits]
    rfl

/-- The bits of a double are even if those of its magnitude are. -/
theorem toBits_floatOfBits_mod_two (h : bits ≤ infinityBits) :
    (Shape.floatOfBits s bits).toBits.toNat % 2 = bits % 2 := by
  rw [Shape.toBits_floatOfBits s h]
  cases s <;> simp [Nat.add_mod]

/-- The sign goes with the units. -/
theorem signedBy_mul_unitsInOne (s : Bool) (q : ℚ) :
    signedBy s q * unitsInOne = signedBy s (q * unitsInOne) := by
  cases s
  · rfl
  · exact neg_mul q _

/-- Infinity begins halfway between the largest finite magnitude and the next power of two. -/
theorem lowEnd_infinityBits : lowEnd infinityBits = (2 ^ 1024 - 2 ^ 970) * unitsInOne := by
  have hsum : units (infinityBits - 1) + units infinityBits + 2 * 2 ^ 970 * unitsInOne =
      2 * 2 ^ 1024 * unitsInOne := by
    decide +kernel
  have hcast : (units (infinityBits - 1) + units infinityBits + 2 * 2 ^ 970 * unitsInOne : ℚ) =
      2 * 2 ^ 1024 * unitsInOne := by
    have := congrArg (Nat.cast : Nat → ℚ) hsum
    simpa only [Nat.cast_add, Nat.cast_mul, Nat.cast_pow, Nat.cast_ofNat] using this
  generalize (2 : ℚ) ^ 1024 = a at hcast ⊢
  generalize (2 : ℚ) ^ 970 = b at hcast ⊢
  rw [lowEnd]
  linarith

/-- A number reads as infinity or more from there on. -/
theorem infinityBits_le_iff {q : ℚ} (h : ReadsAs bits q) :
    infinityBits ≤ bits ↔ lowEnd infinityBits ≤ q := by
  constructor
  · intro hle
    -- What reads as bits reaches the lower end of their range.
    refine le_trans ?_ h.le.1
    have h1 : (units (infinityBits - 1) : ℚ) ≤ units (bits - 1) := by
      exact_mod_cast units_strictMono.monotone (by omega)
    have h2 : (units infinityBits : ℚ) ≤ units bits := by
      exact_mod_cast units_strictMono.monotone hle
    unfold lowEnd
    linarith
  · intro hle
    have hlt : lowEnd infinityBits < units infinityBits := lowEnd_lt (by decide)
    have hhalf : ReadsAs infinityBits (lowEnd infinityBits) := by
      -- The bits of infinity are even, so it has its lower end.
      unfold ReadsAs
      rw [if_pos (by decide)]
      exact ⟨le_rfl, hlt.le.trans (readsAs_units infinityBits).le.2⟩
    exact readsAs_mono hhalf h hle

/-- A magnitude with odd bits as which a number reads is nearer to it than its opposite. -/
theorem eq_of_abs_eq {t : Bool} {m : ℚ} (h : ReadsAs bits m) (hodd : bits % 2 = 1)
    (heq : |units bits - m| = |signedBy t (units bits) - signedBy s m|) : t = s := by
  have hunits : (0 : ℚ) < units bits := by exact_mod_cast units_pos (by omega)
  -- Odd bits are not those of zero, and neither is what reads as them.
  have hm : 0 < m := by
    unfold ReadsAs lowEnd at h
    rw [if_neg (by omega)] at h
    exact h.1.trans_le' (by positivity)
  cases s <;> cases t <;> simp only [signedBy_false, signedBy_true] at heq ⊢
  all_goals
    rcases abs_eq_abs.1 heq with heq | heq <;> linarith

/-- The double with the bits as which a number reads is the nearest one. -/
theorem isNearest_of_readsAs {q : ℚ} (h : ReadsAs bits (q * unitsInOne)) :
    IsNearest s q (Shape.floatOfBits s (min infinityBits bits)) := by
  have hbits : min infinityBits bits ≤ infinityBits := Nat.min_le_left _ _
  have hround : Rounds (Shape.floatOfBits s (min infinityBits bits)) (signedBy s q * unitsInOne) :=
    ⟨s, bits, _, h, signedBy_mul_unitsInOne s q, rfl⟩
  refine ⟨hround.isNumber, negative_floatOfBits hbits, ?_, fun _ y hy => hround.nearest hy,
    fun hx y hy hne heq => ?_⟩
  · rw [isFinite_floatOfBits hbits, ne_eq, decide_eq_true_iff]
    have hpos := unitsInOne_pos
    have hinf := infinityBits_le_iff h
    rw [lowEnd_infinityBits, mul_le_mul_iff_of_pos_right hpos] at hinf
    rw [← hinf]
    omega
  · rw [isFinite_floatOfBits hbits, decide_eq_true_iff] at hx
    -- The double is finite, so its bits are not cut off at those of infinity.
    have hmin : min infinityBits bits = bits := by omega
    rw [hmin] at hx hne heq ⊢
    rw [toBits_floatOfBits_mod_two hx.le]
    obtain ⟨t, c, hc, rfl⟩ := exists_bits_of_isFinite hy
    rw [amount_floatOfBits hc.le, amount_floatOfBits hx.le] at hne heq
    rw [signedBy_mul_unitsInOne, abs_signedBy_sub] at heq
    by_contra hodd
    have hodd : bits % 2 = 1 := by omega
    have hq := h.nonneg
    -- The other double is the opposite one, or its magnitude is farther away.
    rcases eq_or_ne c bits with rfl | hcb
    · exact (hne (congrArg (fun r => signedBy r (units c : ℚ)) (eq_of_abs_eq h hodd heq))).elim
    · have hapart := abs_abs_sub_abs_le (signedBy t (units c)) (signedBy s (q * unitsInOne))
      rw [abs_signedBy t (Nat.cast_nonneg _), abs_signedBy s hq] at hapart
      exact absurd (heq.ge.trans' hapart) (not_le.2 (h.nearer hodd hcb))

/-- No two doubles are nearest to a number: if the bits of both were even, those between them would
be nearer. -/
theorem not_lt_of_isNearest {q : ℚ} {b c : Nat} (hc : c ≤ infinityBits)
    (hx : IsNearest s q (Shape.floatOfBits s b)) (hy : IsNearest s q (Shape.floatOfBits s c)) :
    ¬ b < c := by
  intro hlt
  have hfinite {i : Nat} (hi : i ≤ infinityBits) :
      isFinite (Shape.floatOfBits s i) = true ↔ i < infinityBits := by
    rw [isFinite_floatOfBits hi, decide_eq_true_iff]
  have hb : b < infinityBits := hlt.trans_le hc
  have hbf := (hfinite hb.le).2 hb
  -- Neither of them is infinite, as not both are.
  have hcf : isFinite (Shape.floatOfBits s c) = true := by
    by_contra hinf
    exact hx.overflow.2 (hy.overflow.1 hinf) hbf
  have hc := (hfinite hc).1 hcf
  have hunits : (units b : ℚ) < units (b + 1) := by exact_mod_cast units_lt_succ b
  have hunits' : (units (b + 1) : ℚ) ≤ units c := by
    exact_mod_cast units_strictMono.monotone hlt
  have hdist {i : Nat} (hi : i < infinityBits) :
      |amount (Shape.floatOfBits s i) - signedBy s q * unitsInOne| =
        |units i - q * unitsInOne| := by
    rw [amount_floatOfBits hi.le, signedBy_mul_unitsInOne, abs_signedBy_sub]
  have hne : amount (Shape.floatOfBits s c) ≠ amount (Shape.floatOfBits s b) := by
    rw [amount_floatOfBits hc.le, amount_floatOfBits hb.le]
    intro h
    cases s <;> simp only [signedBy_false, signedBy_true] at h <;> linarith
  have hnear := hx.near hbf _ hcf
  have hnear' := hy.near hcf _ hbf
  -- The two are equally near, so the bits of both are even, and there is one more magnitude
  -- between.
  have heven := hx.even hbf _ hcf hne (le_antisymm hnear hnear')
  have heven' := hy.even hcf _ hbf hne.symm (le_antisymm hnear' hnear)
  rw [toBits_floatOfBits_mod_two hb.le] at heven
  rw [toBits_floatOfBits_mod_two hc.le] at heven'
  have hnext : b + 1 < infinityBits := by omega
  have hmiddle := hx.near hbf _ ((hfinite hnext.le).2 hnext)
  have hlast : (units (b + 1) : ℚ) < units c := by
    exact_mod_cast units_strictMono (show b + 1 < c by omega)
  -- The number is halfway between the two, and the magnitude after the lower one is nearer to it.
  rw [hdist hb, hdist hc] at hnear
  rw [hdist hc, hdist hb] at hnear'
  rw [hdist hb, hdist hnext] at hmiddle
  have hhalf : units b + units c = 2 * (q * unitsInOne) := by
    rcases abs_eq_abs.1 (le_antisymm hnear hnear') with h | h <;> linarith
  rw [abs_of_nonpos (by linarith)] at hmiddle
  rcases abs_cases ((units (b + 1) : ℚ) - q * unitsInOne) with ⟨h, -⟩ | ⟨h, -⟩ <;> linarith

end Bits

/-- Only one double is nearest to a number. -/
theorem IsNearest.unique {s : Bool} {q : ℚ} {x y : Float} (hx : IsNearest s q x)
    (hy : IsNearest s q y) : x = y := by
  obtain ⟨t, b, hb, rfl⟩ := hx.isNumber.exists_bits
  obtain ⟨t', c, hc, rfl⟩ := hy.isNumber.exists_bits
  obtain rfl := (negative_floatOfBits hb).symm.trans hx.sign
  obtain rfl := (negative_floatOfBits hc).symm.trans hy.sign
  have hle := not_lt.1 (not_lt_of_isNearest hc hx hy)
  have hge := not_lt.1 (not_lt_of_isNearest hb hy hx)
  rw [le_antisymm hge hle]

/-! ## Decimals -/

/-- Every decimal is read as the nearest double. -/
theorem isNearest_toFloat (s : Bool) (d : Decimal) :
    IsNearest s (d.coefficient * 10 ^ d.exponent) (d.toFloat s) := by
  obtain ⟨bits, hread, hreads⟩ := d.exists_toFloat s
  rw [inUnits, gridStep, ← mul_assoc] at hreads
  rw [hread]
  exact isNearest_of_readsAs hreads

/-! ## Literals -/

namespace Literal

variable {t u : Text}

/-- One line end is dropped after a text that has none. -/
theorem dropLineEnd_eq (hu : '\n' ∉ u) (ht : t = u ∨ t = u ++ ['\n']) : dropLineEnd t = u := by
  rcases ht with rfl | rfl
  · exact if_neg fun h => hu (List.mem_of_getLast? h)
  · rw [dropLineEnd, List.getLast?_concat, if_pos rfl, List.dropLast_concat]

/-- A decimal number is read as a literal, with a line end or without. -/
theorem Writes.exists_parse? {s : Bool} {q : ℚ} (h : Writes u s q)
    (ht : t = u ∨ t = u ++ ['\n']) :
    ∃ d, parse? t = some (.decimal s d) ∧ q = d.coefficient * 10 ^ d.exponent := by
  obtain ⟨d, hd, hq⟩ := h.exists_parseDecimal?
  have hchars := h.isDecimalChar
  have hname {name : Text} (hn : 'n' ∈ name) : u ≠ name := by
    rintro rfl
    exact absurd (hchars _ hn) (by decide)
  refine ⟨d, ?_, hq⟩
  rw [parse?, dropLineEnd_eq (fun hc => absurd (hchars _ hc) (by decide)) ht]
  rw [if_neg (hname (by decide)), if_neg (hname (by decide)), if_neg (hname (by decide)), hd]

end Literal

open Literal

section Read

variable {t u : Text}

/-- A literal is read as its double. -/
theorem readNumber_of_parse? {l : Literal} (h : parse? t = some l) :
    readNumber t = .ok l.toFloat := by
  rw [readNumber, h]

/-- What is no literal is an error: a missing number if there is nothing but perhaps a minus. -/
theorem exists_readNumber_error (h : parse? t = none) : ∃ e, readNumber t = .error e ∧
    e.code = if t = [] ∨ t = ['-'] then "MISSING_OPERAND" else "INVALID_NUMBER" := by
  rw [readNumber, h]
  simp only
  split
  next => exact ⟨_, rfl, rfl⟩
  next => exact ⟨_, rfl, rfl⟩

variable (ht : t = u ∨ t = u ++ ['\n'])

include ht

/-- A line end makes no difference. -/
theorem parse?_eq (hu : '\n' ∉ u) : parse? t = parse? u := by
  rw [parse?, parse?, dropLineEnd_eq hu ht, dropLineEnd_eq hu (.inl rfl)]

/-- The name of NaN is read as it. -/
theorem exists_readNumber_nan (hu : u = ['n', 'a', 'n']) :
    ∃ x, readNumber t = .ok x ∧ Shape.ofFloat x = .nan := by
  subst hu
  exact ⟨_, readNumber_of_parse? (parse?_eq ht (by decide)), by decide +kernel⟩

/-- The names of the infinities are read as them. -/
theorem exists_readNumber_infinite {s : Bool} (hu : u = signed s ['i', 'n', 'f']) :
    ∃ x, readNumber t = .ok x ∧ Shape.ofFloat x = .infinite s := by
  subst hu
  refine ⟨Literal.toFloat (.infinity s), readNumber_of_parse? ?_, ?_⟩
  · cases s <;> exact parse?_eq ht (by decide)
  · exact (Shape.ofFloat_floatOfBits s le_rfl).trans Shape.ofBits_infinityBits

/-- A decimal number is read as the nearest double. -/
theorem exists_readNumber_nearest {s : Bool} {q : ℚ} (hu : Writes u s q) :
    ∃ x, readNumber t = .ok x ∧ IsNearest s q x := by
  obtain ⟨d, hd, rfl⟩ := hu.exists_parse? ht
  exact ⟨_, readNumber_of_parse? hd, isNearest_toFloat s d⟩

end Read

/-- A text has a value as a number just if it is a name of a number or a decimal number, with one
line end at most. The value of a decimal number is the double nearest to what is written. All other
texts are errors: an empty one or a single minus is a missing number, the rest are invalid ones. -/
theorem readNumber_grammar (t : Text) :
    ((∃ x, readNumber t = .ok x) ↔
      ∃ u, (t = u ∨ t = u ++ ['\n']) ∧ (u ∈ names ∨ ∃ s q, Writes u s q)) ∧
    (∀ u, (t = u ∨ t = u ++ ['\n']) →
      (u = ['n', 'a', 'n'] → ∃ x, readNumber t = .ok x ∧ Shape.ofFloat x = .nan) ∧
      (∀ s, u = signed s ['i', 'n', 'f'] →
        ∃ x, readNumber t = .ok x ∧ Shape.ofFloat x = .infinite s) ∧
      ∀ s q, Writes u s q → ∃ x, readNumber t = .ok x ∧ IsNearest s q x) ∧
    ((¬ ∃ x, readNumber t = .ok x) → ∃ e, readNumber t = .error e ∧
      e.code = if t = [] ∨ t = ['-'] then "MISSING_OPERAND" else "INVALID_NUMBER") := by
  refine ⟨⟨fun ⟨x, h⟩ => ?_, fun ⟨u, ht, hu⟩ => ?_⟩, fun u ht => ⟨exists_readNumber_nan ht,
    fun s => exists_readNumber_infinite ht, fun s q => exists_readNumber_nearest ht⟩,
    fun hnone => exists_readNumber_error ?_⟩
  · obtain ⟨l, hl⟩ := parse?_of_readNumber h
    exact ⟨dropLineEnd t, eq_dropLineEnd_or t, mem_names_or_exists_writes hl⟩
  · rcases hu with hu | ⟨s, q, h⟩
    · have hcases : u = ['n', 'a', 'n'] ∨ u = signed false ['i', 'n', 'f'] ∨
          u = signed true ['i', 'n', 'f'] := by
        simpa [names, signed] using hu
      rcases hcases with h | h | h
      · exact (exists_readNumber_nan ht h).imp fun _ => And.left
      · exact (exists_readNumber_infinite ht h).imp fun _ => And.left
      · exact (exists_readNumber_infinite ht h).imp fun _ => And.left
    · exact (exists_readNumber_nearest ht h).imp fun _ => And.left
  · cases hl : parse? t with
    | none => rfl
    | some l => exact absurd ⟨_, readNumber_of_parse? hl⟩ hnone

end FormulaPlot
