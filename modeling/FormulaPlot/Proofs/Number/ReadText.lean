import FormulaPlot.Formula.NumberText
import FormulaPlot.Formula.Literal
import FormulaPlot.Proofs.Number.ReadBack

/-!
# Reading a number's text

The text of every double is read as that double (`readNumber_plainText`), so a value that is
spliced into a formula loses nothing.

The text of a finite number has digits on both sides of a point (`writePositional_eq`). Those
digits are read as the number they write (`readNumber_point`), which is the decimal that was
chosen, and that decimal reads back.
-/

namespace FormulaPlot

open DecimalDigit Binary

/-- One or more digits. -/
def IsDigits (t : Text) : Prop := t ≠ [] ∧ ∀ c ∈ t, isAsciiDigit c = true

/-- Digits before and after a point make up digits. -/
theorem IsDigits.append {t u : Text} (ht : IsDigits t) (hu : IsDigits u) : IsDigits (t ++ u) := by
  refine ⟨by simp [ht.1], fun c hc => ?_⟩
  rcases List.mem_append.1 hc with h | h
  · exact ht.2 c h
  · exact hu.2 c h

/-- One digit is a run of digits. -/
theorem isDigits_singleton {c : Char} (h : isAsciiDigit c = true) : IsDigits [c] :=
  ⟨List.cons_ne_nil _ _, fun _ hd => List.mem_singleton.1 hd ▸ h⟩

/-- The digits of a number are digits. -/
theorem isDigits_toDigits (n : Nat) : IsDigits (Nat.toDigits 10 n) :=
  ⟨Nat.toDigits_ne_nil, fun _ hc => Nat.isDigit_of_mem_toDigits (by decide) (by decide) hc⟩

/-- The value of a digit. -/
theorem digitValue?_eq {c : Char} (h : isAsciiDigit c = true) :
    digitValue? c = some (c.toNat - 48) :=
  if_pos h

/-- The values of digits. -/
theorem filterMap_digitValue? {t : Text} (h : ∀ c ∈ t, isAsciiDigit c = true) :
    t.filterMap digitValue? = t.map fun c => c.toNat - 48 := by
  induction t with
  | nil => rfl
  | cons c t ih =>
    rw [List.filterMap_cons_some (digitValue?_eq (h c List.mem_cons_self)),
      ih fun d hd => h d (List.mem_cons_of_mem c hd), List.map_cons]

/-- The number that digits write. -/
theorem ofDigits_eq {t : Text} (h : ∀ c ∈ t, isAsciiDigit c = true) :
    Literal.ofDigits (t.filterMap digitValue?) = Nat.ofDigitChars 10 t 0 := by
  rw [filterMap_digitValue? h, Literal.ofDigits, List.foldl_map, Nat.ofDigitChars_eq_foldl]
  rfl

/-- The digits of numbers are decimal digits. -/
theorem IsDigits.isDecimal {t : Text} (h : IsDigits t) : ∀ c ∈ t, isDecimal c = true := by
  intro c hc
  rw [DecimalDigit.isDecimal, digitValue?_eq (h.2 c hc)]
  rfl

/-- Digits are read up to the first character that is none. -/
theorem digitRun_append {t u : Text} (h : ∀ c ∈ t, isDecimal c = true)
    (hu : u.head?.any isDecimal = false) :
    Literal.digitRun (t ++ u) = (t.filterMap digitValue?, u) := by
  have htake : u.takeWhile isDecimal = [] ∧ u.dropWhile isDecimal = u := by
    cases u with
    | nil => exact ⟨rfl, rfl⟩
    | cons c u =>
      have hc : isDecimal c = false := hu
      simp [hc]
  rw [Literal.digitRun, List.takeWhile_append_of_pos h, List.dropWhile_append_of_pos h,
    htake.1, htake.2, List.append_nil]

/-! ## Reading digits -/

/-- What ends in digits has a digit as its last character. -/
theorem IsDigits.getLast?_append {t : Text} (h : IsDigits t) (u : Text) :
    (u ++ t).getLast?.any isAsciiDigit = true := by
  rw [List.getLast?_append, List.getLast?_eq_some_getLast h.1]
  exact h.2 _ (List.getLast_mem h.1)

/-- What ends in digits is read as a decimal number if it is one. -/
theorem parse?_append_digits {t : Text} (h : IsDigits t) (u : Text) :
    Literal.parse? (u ++ t) = Literal.parseDecimal? (u ++ t) := by
  have hlast := h.getLast?_append u
  have hne {w : Text} (hw : w.getLast?.any isAsciiDigit = false) : u ++ t ≠ w := by
    rintro he
    rw [he, hw] at hlast
    cases hlast
  -- The names of the values that are no numbers end in a letter, and a line end is no digit.
  have hline : (u ++ t).getLast? ≠ some '\n' := by
    intro he
    rw [he] at hlast
    exact absurd hlast (by decide)
  unfold Literal.parse?
  simp only [Literal.dropLineEnd, if_neg hline]
  rw [if_neg (hne (by decide)), if_neg (hne (by decide)), if_neg (hne (by decide))]

/-- The sign in front of what has none is read as one. -/
theorem minus_signed {t : Text} (h : t.head? ≠ some '-') (s : Bool) :
    Literal.minus (signed s t) = (s, t) := by
  cases s with
  | true => rfl
  | false =>
    cases t with
    | nil => rfl
    | cons c t => exact if_neg fun hc => h (congrArg some hc)

/-- Digits do not start with a sign. -/
theorem IsDigits.head?_append_ne {t : Text} (h : IsDigits t) (u : Text) :
    (t ++ u).head? ≠ some '-' := by
  obtain ⟨c, t, rfl⟩ := List.exists_cons_of_ne_nil h.1
  rintro ⟨⟩
  exact absurd (h.2 _ List.mem_cons_self) (by decide)

/-- Digits on both sides of a point are read as the decimal they write. -/
theorem readNumber_point {whole fraction : Text} (hw : IsDigits whole) (hf : IsDigits fraction)
    (s : Bool) :
    readNumber (signed s (whole ++ '.' :: fraction)) =
      .ok (Decimal.toFloat s ⟨Nat.ofDigitChars 10 (whole ++ fraction) 0, -fraction.length⟩) := by
  have hrun := digitRun_append hf.isDecimal (u := []) rfl
  rw [List.append_nil] at hrun
  have hne : whole.filterMap digitValue? ≠ [] := by
    rw [filterMap_digitValue? hw.2, ne_eq, List.map_eq_nil_iff]
    exact hw.1
  have hmantissa : Literal.mantissa? (whole ++ '.' :: fraction) =
      some (whole.filterMap digitValue?, fraction.filterMap digitValue?, []) := by
    unfold Literal.mantissa?
    rw [digitRun_append hw.isDecimal (by rfl)]
    simp [hrun, hne]
  have hparse : Literal.parse? (signed s (whole ++ '.' :: fraction)) =
      some (.decimal s ⟨Nat.ofDigitChars 10 (whole ++ fraction) 0, -fraction.length⟩) := by
    have hsplit : signed s (whole ++ '.' :: fraction) = signed s (whole ++ ['.']) ++ fraction := by
      cases s <;> simp [signed]
    rw [hsplit, parse?_append_digits hf, ← hsplit, Literal.parseDecimal?,
      minus_signed (hw.head?_append_ne _)]
    simp only [hmantissa, Literal.exponent?, Option.map_some]
    rw [← List.filterMap_append, ofDigits_eq (hw.append hf).2, filterMap_digitValue? hf.2,
      List.length_map, Int.zero_sub]
  rw [readNumber, hparse]
  rfl

/-- Digits alone are read as the whole number they write. -/
theorem readNumber_whole {whole : Text} (hw : IsDigits whole) (s : Bool) :
    readNumber (signed s whole) =
      .ok (Decimal.toFloat s ⟨Nat.ofDigitChars 10 whole 0, 0⟩) := by
  have hrun := digitRun_append hw.isDecimal (u := []) rfl
  rw [List.append_nil] at hrun
  have hne : whole.filterMap digitValue? ≠ [] := by
    rw [filterMap_digitValue? hw.2, ne_eq, List.map_eq_nil_iff]
    exact hw.1
  have hmantissa : Literal.mantissa? whole = some (whole.filterMap digitValue?, [], []) := by
    unfold Literal.mantissa?
    rw [hrun]
    simp [hne]
  have hparse : Literal.parse? (signed s whole) =
      some (.decimal s ⟨Nat.ofDigitChars 10 whole 0, 0⟩) := by
    have hsplit : signed s whole = signed s [] ++ whole := by cases s <;> rfl
    have hminus := minus_signed (hw.head?_append_ne []) s
    rw [List.append_nil] at hminus
    rw [hsplit, parse?_append_digits hw, ← hsplit, Literal.parseDecimal?, hminus]
    simp only [hmantissa, Literal.exponent?, Option.map_some]
    rw [List.append_nil, ofDigits_eq hw.2]
    rfl
  rw [readNumber, hparse]
  rfl

/-! ## Writing and reading -/

/-- A run of zeros has digits. -/
theorem isAsciiDigit_of_mem_replicate {k : Nat} {c : Char} (h : c ∈ List.replicate k '0') :
    isAsciiDigit c = true := by
  rw [List.eq_of_mem_replicate h]
  decide

/-- A number written positionally has digits on both sides of its point, which write the number. -/
theorem writePositional_eq (d : Decimal) :
    ∃ whole fraction, IsDigits whole ∧ IsDigits fraction ∧
      Layout.writePositional true d = whole ++ '.' :: fraction ∧
      Decimal.inUnits ⟨Nat.ofDigitChars 10 (whole ++ fraction) 0, -fraction.length⟩ =
        d.inUnits := by
  have hdigits := isDigits_toDigits d.coefficient
  unfold Layout.writePositional Decimal.digits
  simp only
  split
  -- A number of whole steps: the zeros of the exponent stand behind the digits.
  next he =>
    refine ⟨Nat.toDigits 10 d.coefficient ++ List.replicate d.exponent.toNat '0', ['0'],
      ⟨by simp [hdigits.1], fun c hc => ?_⟩, (isDigits_singleton rfl), by simp, ?_⟩
    · rcases List.mem_append.1 hc with h | h
      · exact hdigits.2 c h
      · exact isAsciiDigit_of_mem_replicate h
    · have hstep : Decimal.gridStep d.exponent =
          10 ^ d.exponent.toNat * 10 * Decimal.gridStep (-1) := by
        rw [← pow_succ, ← Decimal.gridStep_add]
        congr 1
        omega
      rw [show ['0'] = List.replicate 1 '0' from rfl, Nat.ofDigitChars_append,
        Nat.ofDigitChars_append, Nat.ofDigitChars_ten_toDigits, Nat.ofDigitChars_replicate_zero,
        Nat.ofDigitChars_replicate_zero, Decimal.inUnits, Decimal.inUnits, hstep]
      simp only [List.length_replicate, Nat.cast_one]
      push_cast
      ring
  next he =>
    have hplaces : d.exponent = -((-d.exponent).toNat : Int) := by omega
    split
    -- The point stands among the digits.
    next hlt =>
      refine ⟨_, _, ⟨?_, fun c hc => hdigits.2 c (List.mem_of_mem_take hc)⟩,
        ⟨?_, fun c hc => hdigits.2 c (List.mem_of_mem_drop hc)⟩, rfl, ?_⟩
      · rw [ne_eq, List.take_eq_nil_iff, not_or]
        exact ⟨by omega, hdigits.1⟩
      · rw [ne_eq, List.drop_eq_nil_iff]
        omega
      · rw [List.take_append_drop, Nat.ofDigitChars_ten_toDigits, List.length_drop,
          Nat.sub_sub_self hlt.le, Decimal.inUnits, Decimal.inUnits, ← hplaces]
    -- Too few digits for the places: zeros stand in front of them.
    next hge =>
      refine ⟨['0'], List.replicate _ '0' ++ Nat.toDigits 10 d.coefficient, (isDigits_singleton rfl),
        ⟨by simp [hdigits.1], fun c hc => ?_⟩, rfl, ?_⟩
      · rcases List.mem_append.1 hc with h | h
        · exact isAsciiDigit_of_mem_replicate h
        · exact hdigits.2 c h
      · rw [show ['0'] = List.replicate 1 '0' from rfl, Nat.ofDigitChars_append,
          Nat.ofDigitChars_append, Nat.ofDigitChars_replicate_zero,
          Nat.ofDigitChars_replicate_zero, Nat.mul_zero,
          Nat.ofDigitChars_ten_toDigits, List.length_append, List.length_replicate,
          Nat.sub_add_cancel (not_lt.1 hge), Decimal.inUnits, Decimal.inUnits, ← hplaces]

/-- The texts of numbers: a name or digits on both sides of a point, perhaps after a minus. -/
inductive IsNumberText : Text → Prop where
  | nan : IsNumberText ['n', 'a', 'n']
  | infinite (s : Bool) : IsNumberText (signed s ['i', 'n', 'f'])
  | finite (s : Bool) {whole fraction : Text} (hw : IsDigits whole) (hf : IsDigits fraction) :
    IsNumberText (signed s (whole ++ '.' :: fraction))

/-- The text of every double is that of a number. -/
theorem isNumberText_plainText (x : Float) : IsNumberText (plainText x) := by
  unfold plainText writeFloat
  split
  · exact .nan
  · exact .infinite _
  · obtain ⟨whole, fraction, hw, hf, htext, -⟩ := writePositional_eq (Decimal.shortest _)
    rw [show Layout.plain.write (Decimal.shortest _) = _ from htext]
    exact .finite _ hw hf

/-- The text of a finite double has digits on both sides of a point. -/
theorem plainText_of_isFinite {x : Float} (h : isFinite x = true) :
    ∃ s whole fraction, IsDigits whole ∧ IsDigits fraction ∧
      plainText x = signed s (whole ++ '.' :: fraction) := by
  unfold isFinite at h
  unfold plainText writeFloat
  split
  next hx => rw [hx] at h; cases h
  next s hx => rw [hx] at h; cases h
  next s bits _ =>
    obtain ⟨whole, fraction, hw, hf, htext, -⟩ := writePositional_eq (Decimal.shortest bits)
    exact ⟨s, whole, fraction, hw, hf, congrArg (signed s) htext⟩

/-- The characters at which the text of a number can end. -/
def endsNumber (c : Char) : Bool := isAsciiDigit c || c = 'f' || c = 'n'

/-- The text of a number ends in a digit or in the last letter of a name. -/
theorem IsNumberText.exists_last {t : Text} (h : IsNumberText t) :
    ∃ u c, t = u ++ [c] ∧ endsNumber c = true := by
  cases h with
  | nan => exact ⟨['n', 'a'], 'n', rfl, by decide⟩
  | infinite s => exact ⟨signed s ['i', 'n'], 'f', by cases s <;> rfl, by decide⟩
  | @finite s whole fraction hw hf =>
    refine ⟨signed s (whole ++ '.' :: fraction.dropLast), fraction.getLast hf.1, ?_, ?_⟩
    · cases s <;> simp [signed, List.dropLast_append_getLast]
    · rw [endsNumber, hf.2 _ (List.getLast_mem hf.1)]
      rfl

/-- A digit is a character of numbers. -/
theorem isPlainChar_of_isAsciiDigit {c : Char} (h : isAsciiDigit c = true) :
    isPlainChar c = true := by
  rw [isPlainChar, h]
  rfl

/-- The text of a number has only characters of numbers. -/
theorem IsNumberText.isPlainChar {t : Text} (h : IsNumberText t) {c : Char} (hc : c ∈ t) :
    isPlainChar c = true := by
  have sign {s : Bool} {u : Text} (hc : c ∈ signed s u) : c = '-' ∨ c ∈ u := by
    cases s
    · exact .inr hc
    · exact List.mem_cons.1 hc
  have named {u : Text} (hu : u.all FormulaPlot.isPlainChar = true) (hc : c ∈ u) :
      FormulaPlot.isPlainChar c = true :=
    List.all_eq_true.1 hu c hc
  cases h with
  | nan => exact named (by decide) hc
  | infinite s =>
    rcases sign hc with rfl | hc
    · decide
    · exact named (by decide) hc
  | finite s hw hf =>
    rcases sign hc with rfl | hc
    · decide
    rcases List.mem_append.1 hc with hc | hc
    · exact isPlainChar_of_isAsciiDigit (hw.2 c hc)
    rcases List.mem_cons.1 hc with rfl | hc
    · decide
    · exact isPlainChar_of_isAsciiDigit (hf.2 c hc)

/-- The text of a double is read as that double. -/
theorem readNumber_plainText (x : Float) : readNumber (plainText x) = .ok x := by
  unfold plainText writeFloat
  have hx := Shape.toFloat_ofFloat x
  split
  next h => rw [h] at hx; rw [← hx]; rfl
  next s h => rw [h] at hx; rw [← hx]; cases s <;> rfl
  next s bits h =>
    -- The text says the shortest decimal, and that one is read as the double it was written for.
    obtain ⟨whole, fraction, hw, hf, htext, hunits⟩ := writePositional_eq (Decimal.shortest bits)
    have hb := Shape.lt_of_ofFloat h
    have hread := Decimal.readsAs_shortest bits
    rw [← hunits] at hread
    rw [show Layout.plain.write (Decimal.shortest bits) = _ from htext, readNumber_point hw hf,
      Decimal.toFloat_of_readsAs hb hread, ← h, hx]

end FormulaPlot
