import FormulaPlot.Proofs.Operator.Level

/-!
# Pairs of minuses

A hyphen that subtracts a number with a minus makes a pair of minuses. The engine does not mark such
a hyphen, and the pair is part of one run of characters of operands, which is no number. So a text
with such a pair has no value if an operator is left to apply, and what is around the pair keeps it
from one else: at the end the pair is cancelled and the digits around it are joined, and a number
has one point only (`finish_pair`).
-/

namespace FormulaPlot

open DecimalDigit Literal

/-! ## Runs that are read -/

/-- An operand that is read has no minus after its first character. -/
theorem minus_notMem_tail {t : Text} {x : Float} (h : readNumber t = .ok x)
    (ht : ∀ c ∈ t, isOperandChar c = true) : '-' ∉ t.tail := by
  obtain ⟨l, hl⟩ := parse?_of_readNumber h
  have hend : dropLineEnd t = t := by
    unfold dropLineEnd
    rw [if_neg]
    intro hlast
    exact absurd (ht _ (List.mem_of_getLast? hlast)) (by decide)
  have hletter {u : Text} (hu : t = u) (hi : u.any isNameLetter = true) : False := by
    obtain ⟨c, hc, hn⟩ := List.any_eq_true.1 hi
    have hop := ht c (hu ▸ hc)
    rw [(isNameLetter_facts hn).1] at hop
    cases hop
  unfold parse? at hl
  rw [hend] at hl
  simp only at hl
  split at hl
  next hn => exact (hletter hn (by decide)).elim
  split at hl
  next hn => exact (hletter hn (by decide)).elim
  split at hl
  next hn => exact (hletter hn (by decide)).elim
  obtain ⟨s, q, hwrites⟩ := exists_writes hl
  cases hwrites with
  | @mk u v q k s hu hv =>
    have hsub : ∀ c ∈ u ++ v, isOperandChar c = true := by
      cases s with
      | false => exact ht
      | true => exact fun c hc => ht c (List.mem_cons_of_mem _ hc)
    -- An exponent would begin with a letter.
    obtain rfl : v = [] := by
      cases v with
      | nil => rfl
      | cons c v =>
        have hop := hsub c (by simp)
        rcases hv.isMark c rfl with rfl | rfl <;> exact absurd hop (by decide)
    rw [List.append_nil]
    cases s with
    | false => exact fun hc => hu.minus_notMem (List.mem_of_mem_tail hc)
    | true => exact hu.minus_notMem

/-! ## Pairs -/

/-- A digit, a pair of minuses, digits and a point. -/
def pair (d : Char) (whole : Text) : Text := d :: '-' :: '-' :: (whole ++ ['.'])

/-- The characters that no two numbers share: points, letters of names and symbols of operators. -/
def isMark (c : Char) : Bool := c = '.' || isNameLetter c || Operator.all.any fun o => o.symbol = c

/-- A mark is no digit. -/
theorem isAsciiDigit_of_isMark {c : Char} (h : isMark c = true) : isAsciiDigit c = false := by
  simp only [isMark, Bool.or_eq_true, decide_eq_true_eq, List.any_eq_true] at h
  rcases h with (rfl | h) | ⟨o, -, rfl⟩
  · decide
  · simpa using of_isNameLetter (p := fun c => !isAsciiDigit c) (by decide) h
  · cases o <;> decide

/-- A text has a pair of minuses with digits around it, and a mark before or after. -/
def Paired (t : Text) : Prop :=
  ∃ u d whole v, t = u ++ pair d whole ++ v ∧ isAsciiDigit d = true ∧
    (∀ c ∈ whole, isAsciiDigit c = true) ∧ ∃ c ∈ u ++ v, isMark c = true

/-- The text of a number has a mark. -/
theorem IsNumberText.exists_mark {s : Text} (hs : IsNumberText s) : ∃ c ∈ s, isMark c = true := by
  cases hs with
  | nan => exact ⟨'n', by decide, by decide⟩
  | infinite s => exact ⟨'i', by cases s <;> decide, by decide⟩
  | finite s hw hf => exact ⟨'.', by cases s <;> simp [signed], by decide⟩

/-- A pair is made of characters of operands. -/
theorem isOperandChar_pair {d : Char} {whole : Text} (hd : isAsciiDigit d = true)
    (hw : ∀ c ∈ whole, isAsciiDigit c = true) : ∀ c ∈ pair d whole, isOperandChar c = true := by
  have hdigit {c : Char} (hc : isAsciiDigit c = true) : isOperandChar c = true := by
    rw [isOperandChar, hc]
    rfl
  intro c hc
  simp only [pair, List.mem_cons, List.mem_append, List.not_mem_nil, or_false] at hc
  rcases hc with rfl | rfl | rfl | hc | rfl
  · exact hdigit hd
  · decide
  · decide
  · exact hdigit (hw c hc)
  · decide

/-- No operand with a pair in it is read. -/
theorem readNumber_pair {d : Char} {whole u v : Text} {x : Float}
    (ht : ∀ c ∈ u ++ pair d whole ++ v, isOperandChar c = true) :
    readNumber (u ++ pair d whole ++ v) ≠ .ok x := by
  intro h
  refine minus_notMem_tail h ht ?_
  cases u <;> simp [pair]

/-- A run of operand characters before an operator is in the operand or all of it is kept. -/
theorem operandBefore_or {s : Text} (hs : ∀ c ∈ s, isOperandChar c = true) (u w : Text) :
    (∃ x, operandBefore (u ++ s ++ w) = x ++ s ++ w ∧
      ∀ c ∈ x ++ s ++ w, isOperandChar c = true) ∨
    ∃ w', beforeOperand (u ++ s ++ w) = u ++ s ++ w' := by
  by_cases hw : ∀ c ∈ w, isOperandChar c = true
  · -- Nothing after the run ends the operand, so it reaches over the whole run.
    left
    have hsw : ∀ c ∈ (s ++ w).reverse, isOperandChar c = true := by
      simpa [or_imp, forall_and] using ⟨hw, hs⟩
    have heq : operandBefore (u ++ s ++ w) = operandBefore u ++ s ++ w := by
      rw [operandBefore, List.append_assoc, List.reverse_append, List.takeWhile_append_of_pos hsw,
        List.reverse_append, List.reverse_reverse, List.append_assoc]
      rfl
    refine ⟨operandBefore u, heq, fun c hc => ?_⟩
    rw [← heq, operandBefore, List.mem_reverse] at hc
    exact List.mem_takeWhile_imp hc
  · right
    refine ⟨beforeOperand w, ?_⟩
    have hne : w.reverse.dropWhile isOperandChar ≠ [] := by
      rw [ne_eq, List.dropWhile_eq_nil_iff]
      simpa using hw
    rw [beforeOperand, List.reverse_append, List.dropWhile_append, if_neg (by simpa using hne),
      List.reverse_append, List.reverse_reverse]
    rfl

/-- A run of operand characters after an operator is in the operand or all of it is kept. -/
theorem operandAfter_or {s : Text} (hs : ∀ c ∈ s, isOperandChar c = true) (u w : Text) :
    (∃ x, operandAfter (u ++ s ++ w) = u ++ s ++ x ∧
      ∀ c ∈ u ++ s ++ x, isOperandChar c = true) ∨
    ∃ u', afterOperand (u ++ s ++ w) = u' ++ s ++ w := by
  by_cases hu : ∀ c ∈ u, isOperandChar c = true
  · left
    have hus : ∀ c ∈ u ++ s, isOperandChar c = true := fun c hc =>
      (List.mem_append.1 hc).elim (hu c) (hs c)
    have heq : operandAfter (u ++ s ++ w) = u ++ s ++ operandAfter w :=
      List.takeWhile_append_of_pos hus
    refine ⟨operandAfter w, heq, fun c hc => ?_⟩
    rw [← heq] at hc
    exact List.mem_takeWhile_imp hc
  · right
    refine ⟨afterOperand u, ?_⟩
    have hne : u.dropWhile isOperandChar ≠ [] := by
      rw [ne_eq, List.dropWhile_eq_nil_iff]
      exact hu
    rw [afterOperand, List.append_assoc, List.dropWhile_append, if_neg (by simpa using hne)]
    simp [afterOperand]

/-- Applying an operator keeps a pair and brings a mark. -/
theorem paired_step {o : Operator} {before after : Text} {a b : Float}
    (h : Paired (before ++ o.symbol :: after)) (ha : readNumber (operandBefore before) = .ok a)
    (hb : readNumber (operandAfter after) = .ok b) (x : Float) :
    Paired (beforeOperand before ++ plainText x ++ afterOperand after) := by
  obtain ⟨u, d, whole, v, ht, hd, hw, -⟩ := h
  obtain ⟨m, hm, hmark⟩ := (isNumberText_plainText x).exists_mark
  have hpair := isOperandChar_pair hd hw
  have hsymbol : o.symbol ∉ pair d whole := fun hc => by
    have hop := hpair _ hc
    rw [isOperandChar_symbol] at hop
    cases hop
  -- The pair has no symbol of an operator, so it is on one side of the operator that is applied.
  rcases split_around ht hsymbol with ⟨w, rfl, rfl⟩ | ⟨w, rfl, rfl⟩
  · rcases operandBefore_or hpair u w with ⟨y, hrun, hop⟩ | ⟨w', hkeep⟩
    · rw [hrun] at ha
      exact absurd ha (readNumber_pair hop)
    · rw [hkeep]
      exact ⟨u, d, whole, w' ++ plainText x ++ afterOperand after, by simp, hd, hw, m, by simp [hm],
        hmark⟩
  · rcases operandAfter_or hpair w v with ⟨y, hrun, hop⟩ | ⟨u', hkeep⟩
    · rw [hrun] at hb
      exact absurd hb (readNumber_pair hop)
    · rw [hkeep]
      exact ⟨beforeOperand before ++ plainText x ++ u', d, whole, v, by simp, hd, hw, m,
        by simp [hm], hmark⟩

/-- A text with a pair and a mark has no value. -/
theorem finish_paired {t : Text} (h : Paired (markBinaryMinus t)) : finish t = none := by
  rw [Option.eq_none_iff_forall_ne_some]
  intro x hx
  obtain ⟨y, ⟨u, d, whole, v, rfl, hd, -, c, hc, hmark⟩, hsymbols, hread⟩ := exists_of_finish
    (P := Paired) (fun o before after a b hp ha hb => paired_step hp ha hb (o.apply a b)) h hx
  have hcount {p : Char → Bool} (hp : p '-' = false) :=
    countP_cancelMinusPairs hp (u ++ pair d whole ++ v)
  -- Cancelling minuses takes no other character away, so the mark and the digit are read as well.
  have hkeep {e : Char} (he : e ≠ '-') (hmem : e ∈ u ++ pair d whole ++ v) :
      e ∈ cancelMinusPairs (u ++ pair d whole ++ v) := by
    rw [← List.count_pos_iff, List.count, hcount (by simpa using he.symm)]
    exact List.count_pos_iff.2 hmem
  have hcmem : c ∈ u ++ pair d whole ++ v := by
    rcases List.mem_append.1 hc with h | h <;> simp [h]
  simp only [isMark, Bool.or_eq_true, decide_eq_true_eq] at hmark
  rcases hmark with (rfl | hletter) | hsymbol
  · -- There are two points.
    have hone := count_point_of_readNumber hread
    rw [List.count, hcount (by decide), ← List.count] at hone
    have hpos : 0 < (u ++ v).count '.' := List.count_pos_iff.2 hc
    simp only [pair, List.count_append, List.count_cons] at hone hpos
    simp at hone
    omega
  · -- A name has no digit.
    have hne : d ≠ '-' := by
      rintro rfl
      exact absurd hd (by decide)
    have hdigit := isAsciiDigit_of_readNumber hread
      (hkeep (isNameLetter_facts hletter).2.1 hcmem) hletter (hkeep hne (by simp [pair]))
    rw [hd] at hdigit
    cases hdigit
  · -- No symbol is left at the end of a run.
    obtain ⟨o, -, ho⟩ := List.any_eq_true.1 hsymbol
    rw [decide_eq_true_eq] at ho
    exact hsymbols o (ho ▸ hcmem)

end FormulaPlot
