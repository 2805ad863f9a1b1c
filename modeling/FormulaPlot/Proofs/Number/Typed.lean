import FormulaPlot.Proofs.Number.Accepted
import FormulaPlot.Text.Numeral

/-!
# Literals among numerals

The literals of formulas are a strict part of the numerals that people type: every text that is a
literal is a numeral of the same value (`float?_of_parse?`). So a text that has passed as a literal
can be handed to the reader of numerals, which never refuses it.
-/

namespace FormulaPlot

open DecimalDigit

namespace Numeral

/-- Without underscores, digits are read as in a literal. -/
theorem digitRun_eq {t : Text} (h : '_' ∉ t) : digitRun t = Literal.digitRun t := by
  -- The reader of numerals remembers whether an underscore may follow; without any this makes no
  -- difference.
  have from' (b : Bool) : digitRunFrom b t = Literal.digitRun t := by
    induction t generalizing b with
    | nil => rfl
    | cons c t ih =>
      rw [List.mem_cons, not_or] at h
      rw [digitRunFrom]
      cases hc : digitValue? c with
      | some d =>
        have hdec : isDecimal c = true := by rw [isDecimal, hc]; rfl
        simp only [ih h.2, Literal.digitRun, List.takeWhile_cons, List.dropWhile_cons, hdec,
          if_true, List.filterMap_cons, hc]
      | none =>
        have hdec : isDecimal c = false := by rw [isDecimal, hc]; rfl
        simp [Literal.digitRun, hdec, Ne.symm h.1]
  exact from' false

/-- A sign is read as in a literal. -/
theorem sign_eq (t : Text) : sign t = Literal.sign t := by
  cases t with
  | nil => rfl
  | cons c t =>
    rw [Literal.sign]
    split
    next h => subst h; rfl
    next hminus =>
      split
      next h => subst h; rfl
      next hplus =>
        rw [sign.eq_def]
        split <;> simp_all

/-- What follows a sign is in the text. -/
theorem sign_subset (t : Text) : (Literal.sign t).2 ⊆ t := by
  cases t with
  | nil => exact List.Subset.refl _
  | cons s t =>
    rw [Literal.sign]
    split
    · exact List.subset_cons_self s t
    split
    · exact List.subset_cons_self s t
    · exact List.Subset.refl _

/-- What follows a minus is in the text. -/
theorem minus_subset (t : Text) : (Literal.minus t).2 ⊆ t := by
  cases t with
  | nil => exact List.Subset.refl _
  | cons s t =>
    rw [Literal.minus]
    split
    · exact List.subset_cons_self s t
    · exact List.Subset.refl _

/-- No mantissa begins with a plus, so the sign before one is that of a literal. -/
theorem sign_eq_minus {t rest : Text} {whole fraction : List Nat}
    (h : Literal.mantissa? (Literal.minus t).2 = some (whole, fraction, rest)) :
    sign t = Literal.minus t := by
  rw [sign_eq]
  cases t with
  | nil => rfl
  | cons c t =>
    have hplus : c ≠ '+' := by
      rintro rfl
      have hrun : isDecimal '+' = false := by decide
      simp [Literal.minus, Literal.mantissa?, Literal.digitRun, hrun] at h
    rw [Literal.sign, Literal.minus, if_neg hplus]

/-- The exponent of a literal is that of a numeral, with nothing after it. -/
theorem exponent?_of_exponent? {t : Text} (ht : '_' ∉ t) {e : Int}
    (h : Literal.exponent? t = some e) : exponent? t = (e, []) := by
  cases t with
  | nil =>
    obtain rfl := Option.some.inj h
    rfl
  | cons c t =>
    rw [List.mem_cons, not_or] at ht
    have hrest : '_' ∉ (Literal.sign t).2 := fun hc => ht.2 (sign_subset t hc)
    rw [Literal.exponent?_cons] at h
    rw [exponent?]
    split at h
    next hmark =>
      rw [if_pos hmark]
      simp only [sign_eq, digitRun_eq hrest]
      split at h
      next d digits hrun =>
        obtain rfl := Option.some.inj h
        rw [hrun]
        rfl
      next => cases h
    next => cases h

/-- A decimal literal without its sign is a numeral. -/
theorem decimal?_of_mantissa? {t rest : Text} (ht : '_' ∉ t) {whole fraction : List Nat} {e : Int}
    (hm : Literal.mantissa? t = some (whole, fraction, rest))
    (he : Literal.exponent? rest = some e) :
    decimal? t = some ⟨Literal.ofDigits (whole ++ fraction), e - fraction.length⟩ := by
  have hrun : '_' ∉ (Literal.digitRun t).2 := fun h => ht ((List.dropWhile_sublist _).subset h)
  unfold Literal.mantissa? at hm
  simp only at hm
  unfold decimal?
  simp only [digitRun_eq ht]
  generalize (Literal.digitRun t).1 = w at hm ⊢
  generalize (Literal.digitRun t).2 = u at hm hrun ⊢
  -- The digits with nothing after the exponent are a number if there are any.
  have finish {f : List Nat} {v : Text} (hv : '_' ∉ v) (hf : ¬ (w = [] ∧ f = []))
      (hmant : some (w, f, v) = some (whole, fraction, rest)) :
      (if ((exponent? v).2.isEmpty && !(w.isEmpty && f.isEmpty)) = true then
        some (⟨ofDigits (w ++ f), (exponent? v).1 - f.length⟩ : Decimal) else none) =
      some ⟨Literal.ofDigits (whole ++ fraction), e - fraction.length⟩ := by
    obtain ⟨rfl, rfl, rfl⟩ : w = whole ∧ f = fraction ∧ v = rest := by simpa using hmant
    rw [exponent?_of_exponent? hv he, if_pos (by simpa [List.isEmpty_iff, imp_iff_not_or] using hf)]
    rfl
  -- Both readers look for the point here.
  cases u with
  | nil =>
    simp only at hm ⊢
    split at hm
    next => cases hm
    next hw => exact finish hrun (by simp [hw]) hm
  | cons c u =>
    simp only at hm
    by_cases hc : c = '.'
    · subst hc
      have hu : '_' ∉ u := fun h => hrun (List.mem_cons_of_mem _ h)
      rw [if_pos rfl] at hm
      simp only [digitRun_eq hu]
      split at hm
      next => cases hm
      next hw => exact finish (fun h => hu ((List.dropWhile_sublist _).subset h)) hw hm
    · rw [if_neg hc] at hm
      split at hm
      next => cases hm
      next hw =>
        split
        next h => exact absurd (List.cons.inj h).1 hc
        next => exact finish hrun (by simp [hw]) hm

end Numeral

/-! ## Padding -/

/-- The code points of the blank characters. -/
def blankPoints : List Nat := [
  0x9, 0xa, 0xb, 0xc, 0xd, 0x1c, 0x1d, 0x1e, 0x1f, 0x20, 0x85, 0xa0, 0x1680, 0x2000, 0x2001, 0x2002,
  0x2003, 0x2004, 0x2005, 0x2006, 0x2007, 0x2008, 0x2009, 0x200a, 0x2028, 0x2029, 0x202f, 0x205f,
  0x3000]

/-- A blank character has one of these code points. -/
theorem toNat_mem_blankPoints {c : Char} (h : isBlank c = true) : c.toNat ∈ blankPoints := by
  generalize hn : c.toNat = n
  simp only [isBlank, hn, Bool.or_eq_true, Bool.and_eq_true, decide_eq_true_eq, beq_iff_eq] at h
  simp only [blankPoints, List.mem_cons, List.not_mem_nil, or_false]
  omega

/-- No digit of any script is blank. -/
theorem isBlank_of_isDecimal {c : Char} (h : isDecimal c = true) : isBlank c = false := by
  -- There are few blank characters, so each is looked up among the digits of all scripts.
  have hpoints : blankPoints.all (fun n => (n < 48 || 57 < n) &&
      (n < 0x660 || (zeros.find? fun z => z ≤ n && n < z + 10).isNone)) = true := by decide
  by_contra hblank
  rw [Bool.not_eq_false] at hblank
  have hpoint := List.all_eq_true.1 hpoints _ (toNat_mem_blankPoints hblank)
  simp only [Bool.and_eq_true, Bool.or_eq_true, decide_eq_true_eq] at hpoint
  obtain ⟨hdigit, hscript⟩ := hpoint
  have hascii : c.isDigit = false := by
    rw [Bool.eq_false_iff]
    intro hd
    obtain ⟨hlow, hhigh⟩ : 48 ≤ c.toNat ∧ c.toNat ≤ 57 := Char.isDigit_iff_toNat.1 hd
    omega
  rw [isDecimal, digitValue?, hascii] at h
  simp only [Bool.false_eq_true, if_false] at h
  split at h
  next => cases h
  next hge =>
    rw [Option.isNone_iff_eq_none.1 (hscript.resolve_left hge)] at h
    cases h

/-- No character of a literal is blank. -/
theorem isPadding_of_isDecimalChar {c : Char} (h : Literal.isDecimalChar c = true) :
    isPadding c = false := by
  rw [Literal.isDecimalChar, Bool.or_eq_true] at h
  rcases h with h | h
  · rw [isPadding, isBlank_of_isDecimal h, Bool.false_and]
  · have hall : ['.', '-', '+', 'e', 'E'].all (fun c => !isPadding c) = true := by decide
    simpa using List.all_eq_true.1 hall c (List.contains_iff_mem.1 h)

/-- Trimming leaves a text that neither begins nor ends with padding, without one line end. -/
theorem trimPadding_eq {t : Text} (hne : Literal.dropLineEnd t ≠ [])
    (h : ∀ c ∈ Literal.dropLineEnd t, isPadding c = false) :
    trimPadding t = Literal.dropLineEnd t := by
  have keep {u : Text} (hu : ∀ c ∈ u, isPadding c = false) : u.dropWhile isPadding = u := by
    cases u with
    | nil => rfl
    | cons c u => rw [List.dropWhile_cons_of_neg (by simp [hu c List.mem_cons_self])]
  have hrev {u : Text} (hu : ∀ c ∈ u, isPadding c = false) : ∀ c ∈ u.reverse, isPadding c = false :=
    fun c hc => hu c (List.mem_reverse.1 hc)
  -- A line end is padding itself, and then trimming takes just this one character.
  by_cases hlast : t.getLast? = some '\n'
  · have hdrop : Literal.dropLineEnd t = t.dropLast := if_pos hlast
    rw [hdrop] at hne h ⊢
    obtain ⟨u, rfl⟩ := List.getLast?_eq_some_iff.1 hlast
    rw [List.dropLast_concat] at hne h ⊢
    obtain ⟨c, u, rfl⟩ := List.exists_cons_of_ne_nil hne
    have hc : isPadding c = false := h c List.mem_cons_self
    have hline : isPadding '\n' = true := by decide
    rw [trimPadding, List.cons_append, List.dropWhile_cons_of_neg (by simp [hc]),
      ← List.cons_append, List.reverse_append, List.reverse_singleton, List.singleton_append,
      List.dropWhile_cons_of_pos hline, keep (hrev h), List.reverse_reverse]
  · have hdrop : Literal.dropLineEnd t = t := if_neg hlast
    rw [hdrop] at h ⊢
    rw [trimPadding, keep h, keep (hrev h), List.reverse_reverse]

/-! ## Literals -/

/-- No character of a decimal number is a letter of the names of numbers, in either case. -/
theorem toLower_ne_of_isDecimalChar {c : Char} (h : Literal.isDecimalChar c = true) :
    c.toLower ≠ 'n' := by
  rw [Literal.isDecimalChar, Bool.or_eq_true] at h
  rcases h with h | h
  · have hupper : ¬ (c.val ≥ 'A'.val ∧ c.val ≤ 'Z'.val) := by
      rintro ⟨hA, hZ⟩
      have hlow : 65 ≤ c.toNat := UInt32.le_iff_toNat_le.1 hA
      have hhigh : c.toNat ≤ 90 := UInt32.le_iff_toNat_le.1 hZ
      have hdigit : c.isDigit = false := by
        rw [Bool.eq_false_iff]
        intro hd
        have : c.toNat ≤ 57 := (Char.isDigit_iff_toNat.1 hd).2
        omega
      rw [isDecimal, digitValue?, hdigit, if_neg (by simp), if_pos (by omega)] at h
      cases h
    rw [Char.toLower, dif_neg hupper]
    rintro rfl
    revert h
    decide
  · have hall : ['.', '-', '+', 'e', 'E'].all (fun c => c.toLower != 'n') = true := by decide
    simpa using List.all_eq_true.1 hall c (List.contains_iff_mem.1 h)

/-- No text of such characters spells a word with that letter. -/
theorem map_toLower_ne {t : Text} (ht : ∀ c ∈ t, Literal.isDecimalChar c = true) {w : String}
    (hw : 'n' ∈ w.toList) : String.ofList (t.map Char.toLower) ≠ w := by
  rintro rfl
  rw [String.toList_ofList] at hw
  obtain ⟨c, hc, hlower⟩ := List.mem_map.1 hw
  exact toLower_ne_of_isDecimalChar (ht c hc) hlower

namespace Numeral

/-- Every decimal literal with nothing to trim around it is a numeral of the same value. -/
theorem float?_of_parseDecimal? {text : String} {t : Text} (htrim : trimPadding text.toList = t)
    {l : Literal} (h : Literal.parseDecimal? t = some l) : float? text = some l.toFloat := by
  have hchars : ∀ c ∈ (Literal.minus t).2, Literal.isDecimalChar c = true := fun c hc =>
    Literal.isDecimalChar_of_parseDecimal? h c (minus_subset t hc)
  unfold Literal.parseDecimal? at h
  simp only at h
  split at h
  next => cases h
  next whole fraction rest hm =>
    obtain ⟨e, he, rfl⟩ := Option.map_eq_some_iff.1 h
    rw [float?, htrim, sign_eq_minus hm]
    generalize Literal.minus t = m at hm hchars ⊢
    obtain ⟨negative, v⟩ := m
    -- Neither an underscore nor the letter of the names is among these characters.
    have hunderscore : '_' ∉ v := fun hc => absurd (hchars '_' hc) (by decide)
    simp only
    rw [if_neg (not_or.2 ⟨map_toLower_ne hchars (by decide), map_toLower_ne hchars (by decide)⟩),
      if_neg (map_toLower_ne hchars (by decide)), decimal?_of_mantissa? hunderscore hm he]
    rfl

/-- Every literal is a numeral of the same value. -/
theorem float?_of_parse? {t : Text} {l : Literal} (h : Literal.parse? t = some l) :
    float? (String.ofList t) = some l.toFloat := by
  have hpad : ∀ c ∈ Literal.dropLineEnd t, isPadding c = false := by
    rcases Literal.parse?_cases h with hname | hdec
    · have hall : ∀ u ∈ Literal.names, u.all (fun c => !isPadding c) = true := by decide
      intro c hc
      simpa using List.all_eq_true.1 (hall _ hname) c hc
    · exact fun c hc => isPadding_of_isDecimalChar (hdec c hc)
  have hne : Literal.dropLineEnd t ≠ [] := by
    intro hnil
    rw [Literal.parse?, hnil] at h
    cases h
  have htrim : trimPadding (String.ofList t).toList = Literal.dropLineEnd t := by
    rw [String.toList_ofList, trimPadding_eq hne hpad]
  unfold Literal.parse? at h
  simp only at h
  -- A name is its own numeral, and what is left are the decimal numbers.
  split at h
  next hu => rw [float?, htrim, hu]; obtain rfl := Option.some.inj h; rfl
  split at h
  next hu => rw [float?, htrim, hu]; obtain rfl := Option.some.inj h; rfl
  split at h
  next hu => rw [float?, htrim, hu]; obtain rfl := Option.some.inj h; rfl
  next => exact float?_of_parseDecimal? htrim h

end Numeral

end FormulaPlot
