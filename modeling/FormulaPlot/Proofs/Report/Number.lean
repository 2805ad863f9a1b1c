import FormulaPlot.Proofs.Report.Grammar

/-!
# Numbers in JSON

Whole numbers and finite doubles are written as numbers of the grammar (`isNumeral_toString`,
`isNumeral_number`).

A number of the grammar does not begin with a zero that other digits follow. The digits of a number
other than zero begin with none (`isInt_toDigits`), and the zeros that a layout adds are behind them
or after a point.
-/

namespace FormulaPlot.Json

open Binary Decimal Layout

/-! ## Whole numbers -/

/-- One digit is a whole number. -/
theorem isInt_singleton {c : Char} (h : isAsciiDigit c = true) : IsInt [c] := by
  by_cases hc : c = '0'
  · subst hc
    exact .zero
  · exact .digits h hc (List.forall_mem_nil _)

/-- More digits make a whole number of one that is not zero. -/
theorem IsInt.append {t u : Text} (ht : IsInt t) (h0 : t ≠ ['0'])
    (hu : ∀ c ∈ u, isAsciiDigit c = true) : IsInt (t ++ u) := by
  cases ht with
  | zero => exact absurd rfl h0
  | digits hc hne ht => exact .digits hc hne (List.forall_mem_append.2 ⟨ht, hu⟩)

/-- The first digits of a whole number are one. -/
theorem IsInt.take {t : Text} (ht : IsInt t) {k : Nat} (hk : 0 < k) : IsInt (t.take k) := by
  obtain ⟨k, rfl⟩ := Nat.exists_eq_succ_of_ne_zero hk.ne'
  cases ht with
  | zero => rw [List.take_succ_cons, List.take_nil]; exact .zero
  | digits hc hne ht => exact .digits hc hne fun d hd => ht d (List.mem_of_mem_take hd)

/-- Only zero is written as a zero. -/
theorem toDigits_ne_zero {n : Nat} (h : n ≠ 0) : Nat.toDigits 10 n ≠ ['0'] := fun hzero => h (by
  rw [← Nat.ofDigitChars_ten_toDigits (n := n), hzero]
  rfl)

/-- The digits of a number are a whole number. -/
theorem isInt_toDigits (n : Nat) : IsInt (Nat.toDigits 10 n) := by
  induction n using Nat.strong_induction_on with
  | h n ih =>
    have hdigits := (isDigits_toDigits n).2
    rcases Nat.lt_or_ge n 10 with hlt | hge
    · rw [Nat.toDigits_of_lt_base hlt] at hdigits ⊢
      exact isInt_singleton (hdigits _ List.mem_cons_self)
    · rw [Nat.toDigits_of_base_le (by decide) hge] at hdigits ⊢
      -- The digits before the last are those of a tenth, which is not zero and so begins with none.
      exact (ih (n / 10) (by omega)).append (toDigits_ne_zero (by omega))
        fun c hc => hdigits c (List.mem_append_right _ hc)

/-- Whole numbers are written as numbers. -/
theorem isNumeral_toString (n : Int) : IsNumeral (toString n).toList := by
  rw [Int.toString_eq_repr, Int.repr_eq_if]
  split
  next => simpa [signed] using IsNumeral.mk false (isInt_toDigits n.toNat) .none .none
  next => simpa [signed] using IsNumeral.mk true (isInt_toDigits (-n).toNat) .none .none

/-! ## Doubles -/

/-- A number written positionally, where zero has no zeros after it. -/
theorem isNumeral_writePositional {d : Decimal} (h : d.coefficient = 0 → d.exponent = 0)
    (s : Bool) : IsNumeral (signed s (writePositional true d)) := by
  have hdigits : IsDigits d.digits := isDigits_toDigits d.coefficient
  have hint : IsInt d.digits := isInt_toDigits d.coefficient
  unfold writePositional
  simp only
  split
  next he =>
    -- A power of ten puts zeros behind the digits, where there must be more than a zero.
    have hwhole : IsInt (d.digits ++ List.replicate d.exponent.toNat '0') := by
      by_cases h0 : d.coefficient = 0
      · rw [h h0]
        simpa using hint
      · exact hint.append (toDigits_ne_zero h0) fun c => isAsciiDigit_of_mem_replicate
    simpa using IsNumeral.mk s hwhole (.some (isDigits_singleton (c := '0') rfl)) .none
  next he =>
    split
    next hlt =>
      -- The point is between the digits, so some are left on both sides.
      have hfraction : IsDigits (d.digits.drop (d.digits.length - (-d.exponent).toNat)) := by
        refine ⟨?_, fun c hc => hdigits.2 c (List.mem_of_mem_drop hc)⟩
        rw [ne_eq, List.drop_eq_nil_iff]
        omega
      simpa using IsNumeral.mk s (hint.take (by omega)) (.some hfraction) .none
    next hge =>
      have hfraction :
          IsDigits (List.replicate ((-d.exponent).toNat - d.digits.length) '0' ++ d.digits) :=
        ⟨by simp [hdigits.1],
          List.forall_mem_append.2 ⟨fun c => isAsciiDigit_of_mem_replicate, hdigits.2⟩⟩
      simpa using IsNumeral.mk s .zero (.some hfraction) .none

/-- A power of ten is an exponent. -/
theorem isExponent_writeExponent (e : Int) : IsExponent ('e' :: writeExponent e) := by
  have hdigits := isDigits_toDigits e.natAbs
  have hpadded : IsDigits (if (Nat.toDigits 10 e.natAbs).length < 2
      then '0' :: Nat.toDigits 10 e.natAbs else Nat.toDigits 10 e.natAbs) := by
    split
    next => exact (isDigits_singleton rfl).append hdigits
    next => exact hdigits
  refine IsExponent.some (s := [if e < 0 then '-' else '+']) (.inl rfl) ?_ hpadded
  split
  next => exact .inr (.inl rfl)
  next => exact .inr (.inr rfl)

/-- A number written with an exponent. -/
theorem isNumeral_writeScientific (d : Decimal) (s : Bool) :
    IsNumeral (signed s (writeScientific d)) := by
  obtain ⟨hne, hdigits⟩ : IsDigits d.digits := isDigits_toDigits d.coefficient
  have hexponent := isExponent_writeExponent d.leading
  unfold writeScientific
  -- The other digits, if there are any, are after a point.
  match d.digits, hne, hdigits with
  | [c], _, hdigits =>
    simpa using IsNumeral.mk s (isInt_singleton (hdigits c List.mem_cons_self)) .none hexponent
  | c :: d' :: rest, _, hdigits =>
    obtain ⟨hc, hrest⟩ := List.forall_mem_cons.1 hdigits
    simpa using IsNumeral.mk s (isInt_singleton hc) (.some ⟨List.cons_ne_nil _ _, hrest⟩) hexponent

/-- Only zero has the coefficient zero among the shortest decimals. -/
theorem exponent_shortest {bits : Nat} (h : (shortest bits).coefficient = 0) :
    (shortest bits).exponent = 0 := by
  have hreads := readsAs_shortest bits
  rw [inUnits, h, Nat.cast_zero, zero_mul] at hreads
  -- A decimal that is zero reads as zero, and so does no other double.
  obtain rfl := readsAs_unique hreads readsAs_zero
  rfl

/-- Finite doubles are written as numbers. -/
theorem isNumeral_valueText {x : Float} (h : isFinite x = true) :
    IsNumeral (valueText x).toList := by
  unfold isFinite at h
  rw [valueText, String.toList_ofList]
  unfold writeFloat
  split
  next hx => rw [hx] at h; cases h
  next s hx => rw [hx] at h; cases h
  next s bits _ =>
    unfold Layout.write
    split
    next => exact isNumeral_writePositional exponent_shortest s
    next => exact isNumeral_writeScientific _ s

/-- Finite doubles are written as numbers. -/
theorem isNumeral_number {x : Float} (h : isFinite x = true) : IsNumeral (number x).toList := by
  have hvalue := isNumeral_valueText h
  unfold isFinite at h
  unfold number
  split
  next hx => rw [hx] at h; cases h
  next hx => rw [hx] at h; cases h
  next hx => rw [hx] at h; cases h
  next => exact hvalue

/-- Other doubles are written by names with a letter that no document has outside of strings. -/
theorem not_quiet_number {x : Float} (h : isFinite x ≠ true) :
    Closed (number x).toList ∧ ¬ Quiet (number x).toList := by
  -- A name has no quotation marks, so all of it is outside of strings.
  have hname {t : Text} (hquote : '\x22' ∉ t) {c : Char} (hc : c ∈ t) (hmute : isMute c = false) :
      Closed t ∧ ¬ Quiet t := by
    obtain ⟨hclosed, houtside⟩ := closed_of_notMem hquote
    exact ⟨hclosed, Quiet.not_of_mem hmute (by rwa [houtside])⟩
  unfold isFinite at h
  unfold number
  split
  next => exact hname (c := 'N') (by decide) (by decide) (by decide)
  next => exact hname (c := 'I') (by decide) (by decide) (by decide)
  next => exact hname (c := 'I') (by decide) (by decide) (by decide)
  next hx => rw [hx] at h; exact absurd rfl h

end FormulaPlot.Json
