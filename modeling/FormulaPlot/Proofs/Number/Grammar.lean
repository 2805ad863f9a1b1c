import Mathlib.Tactic.FieldSimp
import FormulaPlot.Proofs.Number.ReadText

/-!
# The grammar of decimal numbers

`Writes t s q` says that a text is a decimal number with a sign and the exact number that it writes:
digits of any script, perhaps with a point before, between or after them, and perhaps an exponent.
`parseDecimal?` reads just these texts, and as decimals that are the numbers written
(`exists_parseDecimal?`, `exists_writes`).

Each part of a number has a relation of its own, and for each the reader is complete, as it takes
all of the part, and sound, as what it takes is the part.
-/

namespace FormulaPlot

open DecimalDigit

namespace Literal

/-! ## The relations -/

/-- The letters that mark exponents. -/
def IsMark (c : Char) : Prop := c = 'e' ∨ c = 'E'

instance (c : Char) : Decidable (IsMark c) := inferInstanceAs (Decidable (_ ∨ _))

/-- Digits, and the number that they write. -/
inductive Digits : Text → Nat → Prop
  | nil : Digits [] 0
  | next {u : Text} {n d : Nat} {c : Char} : Digits u n → digitValue? c = some d →
      Digits (u ++ [c]) (10 * n + d)

/-- Digits with a point or without one, and the number that they write. -/
inductive Mantissa : Text → ℚ → Prop
  | whole {u : Text} {n : Nat} : Digits u n → u ≠ [] → Mantissa u n
  | point {u v : Text} {n m : Nat} : Digits u n → Digits v m → u ++ v ≠ [] →
      Mantissa (u ++ '.' :: v) (n + m / 10 ^ v.length)

/-- An exponent, or nothing for zero. -/
inductive Exponent : Text → Int → Prop
  | none : Exponent [] 0
  | plain {c : Char} {u : Text} {n : Nat} : IsMark c → Digits u n → u ≠ [] → Exponent (c :: u) n
  | plus {c : Char} {u : Text} {n : Nat} : IsMark c → Digits u n → u ≠ [] →
      Exponent (c :: '+' :: u) n
  | minus {c : Char} {u : Text} {n : Nat} : IsMark c → Digits u n → u ≠ [] →
      Exponent (c :: '-' :: u) (-n)

/-- A decimal number, its sign and the number that it writes without the sign. -/
inductive Writes : Text → Bool → ℚ → Prop
  | mk {u v : Text} {q : ℚ} {k : Int} (s : Bool) : Mantissa u q → Exponent v k →
      Writes (signed s (u ++ v)) s (q * 10 ^ k)

/-! ## Digits -/

/-- One more digit. -/
theorem ofDigits_concat (ds : List Nat) (d : Nat) :
    ofDigits (ds ++ [d]) = 10 * ofDigits ds + d := by
  rw [ofDigits, List.foldl_append]
  rfl

/-- Digits after one another. -/
theorem ofDigits_append (ds es : List Nat) :
    ofDigits (ds ++ es) = ofDigits ds * 10 ^ es.length + ofDigits es := by
  induction es using List.reverseRecOn with
  | nil => simp [ofDigits]
  | append_singleton es e ih =>
    rw [← List.append_assoc, ofDigits_concat, ih, ofDigits_concat, List.length_append,
      List.length_singleton, pow_succ]
    ring

/-- The number that digits with a point write is the sum of those before and after it. -/
theorem ofDigits_append_div (ds es : List Nat) :
    (ofDigits (ds ++ es) / 10 ^ es.length : ℚ) = ofDigits ds + ofDigits es / 10 ^ es.length := by
  rw [ofDigits_append]
  push_cast
  rw [add_div, mul_div_cancel_right₀ _ (by positivity)]

/-- What is made of digits writes the number of their values. -/
theorem digits_of_isDecimal {u : Text} (h : ∀ c ∈ u, isDecimal c = true) :
    Digits u (ofDigits (u.filterMap digitValue?)) := by
  induction u using List.reverseRecOn with
  | nil => exact .nil
  | append_singleton u c ih =>
    obtain ⟨d, hd⟩ := Option.isSome_iff_exists.1 (h c (by simp))
    rw [List.filterMap_append, List.filterMap_cons_some hd, List.filterMap_nil, ofDigits_concat]
    exact .next (ih fun e he => h e (by simp [he])) hd

namespace Digits

variable {u : Text} {n : Nat}

/-- Digits are digits. -/
theorem isDecimal (h : Digits u n) : ∀ c ∈ u, isDecimal c = true := by
  induction h with
  | nil => exact fun c hc => absurd hc List.not_mem_nil
  | next _ hd ih =>
    intro e he
    rcases List.mem_append.1 he with he | he
    · exact ih e he
    · rw [List.mem_singleton.1 he, DecimalDigit.isDecimal, hd]
      rfl

/-- The number that digits write is that of their values. -/
theorem eq_ofDigits (h : Digits u n) : n = ofDigits (u.filterMap digitValue?) := by
  induction h with
  | nil => rfl
  | next _ hd ih =>
    rw [List.filterMap_append, List.filterMap_cons_some hd, List.filterMap_nil, ofDigits_concat, ih]

/-- Each digit has a value. -/
theorem length_filterMap (h : Digits u n) : (u.filterMap digitValue?).length = u.length := by
  induction h with
  | nil => rfl
  | next _ hd ih =>
    rw [List.filterMap_append, List.filterMap_cons_some hd, List.length_append, List.length_append,
      ih]
    rfl

/-- Only where there are no digits there are no values. -/
theorem filterMap_eq_nil (h : Digits u n) : u.filterMap digitValue? = [] ↔ u = [] := by
  rw [← List.length_eq_zero_iff, h.length_filterMap, List.length_eq_zero_iff]

/-- Digits are read to their end. -/
theorem digitRun_eq (h : Digits u n) : digitRun u = (u.filterMap digitValue?, []) := by
  have hrun := digitRun_append h.isDecimal (u := []) rfl
  rwa [List.append_nil] at hrun

end Digits

/-- A run of digits is digits with their values. -/
theorem exists_digits (t : Text) : ∃ u, t = u ++ (digitRun t).2 ∧
    (digitRun t).1 = u.filterMap digitValue? ∧ Digits u (ofDigits (u.filterMap digitValue?)) :=
  ⟨t.takeWhile isDecimal, List.takeWhile_append_dropWhile.symm, rfl,
    digits_of_isDecimal fun _ => List.mem_takeWhile_imp⟩

/-! ## Mantissas -/

/-- A mark is no digit. -/
theorem IsMark.isDecimal_eq {c : Char} (hc : IsMark c) : isDecimal c = false := by
  rcases hc with rfl | rfl <;> decide

/-- A mark is none of the other characters. -/
theorem IsMark.ne {c d : Char} (hc : IsMark c) (hd : ¬ IsMark d) : c ≠ d := fun h => hd (h ▸ hc)

/-- A mantissa is read up to the mark of an exponent. -/
theorem Mantissa.exists_mantissa? {u e : Text} {q : ℚ} (h : Mantissa u q)
    (he : ∀ c ∈ e.head?, IsMark c) : ∃ w f, mantissa? (u ++ e) = some (w, f, e) ∧
      q = ofDigits (w ++ f) / 10 ^ f.length := by
  -- What follows the mantissa begins with a mark, so no run of digits goes on into it.
  have hdigit : e.head?.any isDecimal = false := by
    cases e with
    | nil => rfl
    | cons c e => exact (he c rfl).isDecimal_eq
  cases h with
  | @whole u n hu hne =>
    refine ⟨u.filterMap digitValue?, [], ?_, ?_⟩
    · unfold mantissa?
      rw [digitRun_append hu.isDecimal hdigit]
      cases e with
      | nil => simp [hu.filterMap_eq_nil, hne]
      | cons c e => simp [hu.filterMap_eq_nil, hne, (he c rfl).ne (d := '.') (by decide)]
    · rw [List.append_nil, ← hu.eq_ofDigits, List.length_nil, pow_zero, div_one]
  | @point u v n m hu hv hne =>
    refine ⟨u.filterMap digitValue?, v.filterMap digitValue?, ?_, ?_⟩
    · unfold mantissa?
      rw [List.append_assoc, digitRun_append hu.isDecimal rfl]
      simp only [List.cons_append, digitRun_append hv.isDecimal hdigit, hu.filterMap_eq_nil,
        hv.filterMap_eq_nil, ← List.append_eq_nil_iff, if_pos, if_neg hne]
    · rw [ofDigits_append_div, ← hu.eq_ofDigits, ← hv.eq_ofDigits, hv.length_filterMap]

/-- What is read as a mantissa is one. -/
theorem exists_mantissa {t rest : Text} {w f : List Nat} (h : mantissa? t = some (w, f, rest)) :
    ∃ u, t = u ++ rest ∧ Mantissa u (ofDigits (w ++ f) / 10 ^ f.length) := by
  obtain ⟨u, ht, hvalues, hu⟩ := exists_digits t
  -- Without a point the digits are all of the mantissa, so there must be some.
  have hwhole (hne : u.filterMap digitValue? ≠ []) :
      Mantissa u (ofDigits (u.filterMap digitValue? ++ []) / 10 ^ ([] : List Nat).length) := by
    rw [List.append_nil, List.length_nil, pow_zero, div_one]
    exact .whole hu (hu.filterMap_eq_nil.not.1 hne)
  unfold mantissa? at h
  simp only [hvalues] at h
  generalize (digitRun t).2 = r at h ht
  cases r with
  | nil =>
    simp only at h
    split at h
    next => cases h
    next hne =>
      cases h
      exact ⟨u, ht, hwhole hne⟩
  | cons c r =>
    simp only at h
    split at h
    next hc =>
      obtain ⟨v, hr, hvalues', hv⟩ := exists_digits r
      rw [hvalues'] at h
      split at h
      next => cases h
      -- Here a point follows, and one side of it may be empty, but not both.
      next hne =>
        cases h
        refine ⟨u ++ '.' :: v, by rw [List.append_assoc, List.cons_append, ← hr, ← hc, ht], ?_⟩
        rw [hu.filterMap_eq_nil, hv.filterMap_eq_nil, ← List.append_eq_nil_iff] at hne
        rw [ofDigits_append_div, hv.length_filterMap]
        exact .point hu hv hne
    next =>
      split at h
      next => cases h
      next hne =>
        cases h
        exact ⟨u, ht, hwhole hne⟩

/-- A mantissa has no minus. -/
theorem Mantissa.minus_notMem {u : Text} {q : ℚ} (h : Mantissa u q) : '-' ∉ u := by
  have hdigits {v : Text} {n : Nat} (hv : Digits v n) : '-' ∉ v := fun hc =>
    absurd (hv.isDecimal _ hc) (by decide)
  cases h with
  | whole hu _ => exact hdigits hu
  | point hu hv _ => simp [hdigits hu, hdigits hv]

/-- A mantissa is not empty. -/
theorem Mantissa.ne_nil {u : Text} {q : ℚ} (h : Mantissa u q) : u ≠ [] := by
  cases h with
  | whole _ hne => exact hne
  | point _ _ _ => simp

/-- A mantissa does not start with a sign. -/
theorem Mantissa.head?_append_ne {u : Text} {q : ℚ} (h : Mantissa u q) (e : Text) :
    (u ++ e).head? ≠ some '-' := by
  intro hhead
  rw [List.head?_append_of_ne_nil u h.ne_nil] at hhead
  exact h.minus_notMem (List.mem_of_mem_head? hhead)

/-! ## Exponents -/

/-- A sign in front of a text, if there is one, and the text. -/
def sign : Text → Bool × Text
  | [] => (false, [])
  | s :: t => if s = '-' then (true, t) else if s = '+' then (false, t) else (false, s :: t)

/-- An exponent is a mark, perhaps a sign, and digits. -/
theorem exponent?_cons (c : Char) (t : Text) :
    exponent? (c :: t) = if c = 'e' ∨ c = 'E' then
      match digitRun (sign t).2 with
      | (d :: digits, []) =>
        some (if (sign t).1 = true then -(ofDigits (d :: digits) : Int) else ofDigits (d :: digits))
      | _ => none
    else none := by
  cases t <;> rfl

/-- A text begins with its sign. -/
theorem sign_cases (t : Text) : (t = '-' :: (sign t).2 ∧ (sign t).1 = true) ∨
    (t = '+' :: (sign t).2 ∧ (sign t).1 = false) ∨ t = (sign t).2 ∧ (sign t).1 = false := by
  cases t with
  | nil => exact .inr (.inr ⟨rfl, rfl⟩)
  | cons s t =>
    rw [sign]
    split
    next hs => exact .inl ⟨by rw [hs], rfl⟩
    split
    next hs => exact .inr (.inl ⟨by rw [hs], rfl⟩)
    next => exact .inr (.inr ⟨rfl, rfl⟩)

/-- An exponent starts with its mark. -/
theorem Exponent.isMark {e : Text} {k : Int} (h : Exponent e k) : ∀ c ∈ e.head?, IsMark c := by
  cases h with
  | none => exact fun c hc => by cases hc
  | plain hc => rintro _ ⟨⟩; exact hc
  | plus hc => rintro _ ⟨⟩; exact hc
  | minus hc => rintro _ ⟨⟩; exact hc

/-- Digits after the mark and the sign of an exponent are read as its number. -/
theorem exponent?_of_digits {c : Char} {t : Text} {n : Nat} (hc : IsMark c)
    (h : Digits (sign t).2 n) (hne : (sign t).2 ≠ []) :
    exponent? (c :: t) = some (if (sign t).1 = true then -(n : Int) else n) := by
  rw [exponent?_cons, if_pos (show c = 'e' ∨ c = 'E' from hc), h.digitRun_eq]
  have hvalues := h.filterMap_eq_nil.not.2 hne
  have hn := h.eq_ofDigits
  -- The reader asks for a first digit, and some digit has a value.
  generalize (sign t).2.filterMap digitValue? = ds at hvalues hn
  obtain ⟨d, ds, rfl⟩ := List.exists_cons_of_ne_nil hvalues
  rw [hn]

/-- An exponent is read in full. -/
theorem Exponent.exponent?_eq {e : Text} {k : Int} (h : Exponent e k) : exponent? e = some k := by
  cases h with
  | none => rfl
  | @plain c u n hc hu hne =>
    -- The first digit is no sign.
    have hsign : sign u = (false, u) := by
      obtain ⟨d, u, rfl⟩ := List.exists_cons_of_ne_nil hne
      have hd := hu.isDecimal d List.mem_cons_self
      rw [sign, if_neg (by rintro rfl; exact absurd hd (by decide)),
        if_neg (by rintro rfl; exact absurd hd (by decide))]
    rw [exponent?_of_digits hc (by rwa [hsign]) (by rwa [hsign]), hsign]
    rfl
  | plus hc hu hne => exact exponent?_of_digits hc (t := '+' :: _) hu hne
  | minus hc hu hne => exact exponent?_of_digits hc (t := '-' :: _) hu hne

/-- What is read as an exponent is one. -/
theorem exponent_of_exponent? {t : Text} {k : Int} (h : exponent? t = some k) : Exponent t k := by
  cases t with
  | nil =>
    cases h
    exact .none
  | cons c t =>
    rw [exponent?_cons] at h
    split at h
    next hc =>
      obtain ⟨u, ht, hvalues, hu⟩ := exists_digits (sign t).2
      split at h
      next d digits hrun =>
        rw [hrun] at ht hvalues
        rw [List.append_nil] at ht
        rw [← hvalues, ← ht] at hu
        have hne : (sign t).2 ≠ [] := hu.filterMap_eq_nil.not.1 <| by
          rw [ht, ← hvalues]
          exact List.cons_ne_nil d digits
        obtain rfl := Option.some.inj h
        -- The sign only decides which form the exponent has.
        rcases sign_cases t with ⟨hsign, hs⟩ | ⟨hsign, hs⟩ | ⟨hsign, hs⟩ <;>
          rw [hs] <;> nth_rewrite 1 [hsign]
        · exact .minus hc hu hne
        · exact .plus hc hu hne
        · exact .plain hc hu hne
      next => cases h
    next => cases h

/-! ## Decimal numbers -/

/-- The minus of a text is in front of the rest. -/
theorem signed_minus (t : Text) : signed (minus t).1 (minus t).2 = t := by
  cases t with
  | nil => rfl
  | cons c t =>
    rw [minus]
    split
    next hc =>
      rw [hc]
      rfl
    next => rfl

/-- A decimal number is read as a decimal that is the number. -/
theorem Writes.exists_parseDecimal? {t : Text} {s : Bool} {q : ℚ} (h : Writes t s q) :
    ∃ d, parseDecimal? t = some (.decimal s d) ∧ q = d.coefficient * 10 ^ d.exponent := by
  cases h with
  | @mk u v a k s hu hv =>
    obtain ⟨w, f, hmantissa, rfl⟩ := hu.exists_mantissa? hv.isMark
    refine ⟨⟨ofDigits (w ++ f), k - f.length⟩, ?_, ?_⟩
    · rw [parseDecimal?, minus_signed (hu.head?_append_ne v)]
      simp only [hmantissa, hv.exponent?_eq, Option.map_some]
    · simp only
      rw [zpow_sub₀ (by norm_num), zpow_natCast, div_mul_eq_mul_div, mul_div_assoc]

/-- What is read as a decimal number is one. -/
theorem exists_writes {t : Text} {l : Literal} (h : parseDecimal? t = some l) :
    ∃ s q, Writes t s q := by
  unfold parseDecimal? at h
  simp only at h
  split at h
  next => cases h
  next w f rest hmantissa =>
    obtain ⟨k, hk, -⟩ := Option.map_eq_some_iff.1 h
    obtain ⟨u, ht, hu⟩ := exists_mantissa hmantissa
    have hwrites := Writes.mk (minus t).1 hu (exponent_of_exponent? hk)
    rw [← ht, signed_minus] at hwrites
    exact ⟨_, _, hwrites⟩

end Literal

end FormulaPlot
