import FormulaPlot.Proofs.Number.Accepted
import FormulaPlot.Proofs.Phrase.Meaning

/-!
# What the application of operators keeps

The engine applies an operator by putting the text of a number in the place of its symbol and of
the operands next to it. `exists_of_finish` carries what each such step keeps from a text without
calls to the text that is read as its value. Three things are kept that no number has:

* reserved characters (`isInert_of_finish`);
* a plus right after a letter, which has no operand on its left (`not_letterPlus_of_finish`);
* the letters of a name of a number with something else that counts (`not_crowded_of_finish`).
-/

namespace FormulaPlot

/-! ## Steps -/

/-- The symbol of an operator is no character of operands. -/
theorem isOperandChar_symbol (o : Operator) : isOperandChar o.symbol = false := by
  cases o <;> decide

/-- Applying an operator takes one of its symbols away. -/
theorem count_step (o : Operator) (before after : Text) (x : Float) :
    (beforeOperand before ++ plainText x ++ afterOperand after).count o.symbol + 1 =
      (before ++ o.symbol :: after).count o.symbol := by
  have hoperand {t : Text} (ht : ∀ c ∈ t, isOperandChar c = true) : t.count o.symbol = 0 := by
    rw [List.count_eq_zero]
    intro hc
    have := ht _ hc
    rw [isOperandChar_symbol] at this
    cases this
  have hb := congrArg (List.count o.symbol) (beforeOperand_append_operandBefore before)
  have ha := congrArg (List.count o.symbol) (operandAfter_append_afterOperand after)
  -- The operands that are taken have no symbols.
  have hb0 : (operandBefore before).count o.symbol = 0 := hoperand fun c hc => by
    rw [operandBefore, List.mem_reverse] at hc
    exact List.mem_takeWhile_imp hc
  have ha0 : (operandAfter after).count o.symbol = 0 := hoperand fun c hc =>
    List.mem_takeWhile_imp hc
  simp only [List.count_append, List.count_cons_self, count_symbol_plainText] at hb ha ⊢
  omega

/-- What each application of an operator keeps is kept by all of them. -/
theorem applyOperator_invariant {P : Text → Prop} {o : Operator} {t u : Text}
    (hstep : ∀ before after a b, P (before ++ o.symbol :: after) →
      readNumber (operandBefore before) = .ok a → readNumber (operandAfter after) = .ok b →
      P (beforeOperand before ++ plainText (o.apply a b) ++ afterOperand after))
    (ht : P t) (h : (applyOperator o t).outcome = .ok u) : P u := by
  cases hsplit : splitAtChar? o.symbol t with
  | none =>
    rw [applyOperator_of_none hsplit] at h
    cases h
    exact ht
  | some parts =>
    obtain ⟨before, after⟩ := parts
    rw [applyOperator_of_some hsplit] at h
    have htext := (eq_of_splitAtChar? hsplit).1
    rw [htext] at ht
    simp only [Noted.outcome_bind, Noted.outcome_ofExcept, Noted.outcome_note] at h
    cases ha : readNumber (operandBefore before) with
    | error e => rw [ha] at h; cases h
    | ok a =>
      cases hb : readNumber (operandAfter after) with
      | error e => rw [ha, hb] at h; cases h
      | ok b =>
        rw [ha, hb] at h
        exact applyOperator_invariant hstep (hstep before after a b ht ha hb) h
termination_by t.count o.symbol
decreasing_by
  -- A step takes one symbol away and brings none.
  rw [htext, ← count_step o before after (o.apply a b)]
  exact Nat.lt_succ_self _

/-- What each application of an operator keeps is kept by those of several kinds. -/
theorem applyOperators_invariant {P : Text → Prop} {t u : Text}
    (hstep : ∀ (o : Operator) before after a b, P (before ++ o.symbol :: after) →
      readNumber (operandBefore before) = .ok a → readNumber (operandAfter after) = .ok b →
      P (beforeOperand before ++ plainText (o.apply a b) ++ afterOperand after))
    {os : List Operator} (ht : P t) (h : (applyOperators os t).outcome = .ok u) : P u := by
  induction os generalizing t with
  | nil =>
    cases h
    exact ht
  | cons o os ih =>
    rw [applyOperators, Noted.outcome_bind] at h
    cases ho : (applyOperator o t).outcome with
    | error e => rw [ho] at h; cases h
    | ok w =>
      rw [ho] at h
      exact ih (applyOperator_invariant (hstep o) ht ho) h

/-- A character that is not found is not in the text. -/
theorem notMem_of_splitAtChar? {s : Char} {t : Text} (h : splitAtChar? s t = none) : s ∉ t := by
  induction t with
  | nil => exact List.not_mem_nil
  | cons c t ih =>
    rw [splitAtChar?] at h
    split at h
    next => cases h
    next hc =>
      rw [Option.map_eq_none_iff] at h
      rw [List.mem_cons, not_or]
      exact ⟨Ne.symm hc, ih h⟩

/-- An operator is gone once it is applied wherever it stands. -/
theorem symbol_notMem_of_applyOperator {o : Operator} {t u : Text}
    (h : (applyOperator o t).outcome = .ok u) : o.symbol ∉ u := by
  cases hsplit : splitAtChar? o.symbol t with
  | none =>
    rw [applyOperator_of_none hsplit] at h
    cases h
    exact notMem_of_splitAtChar? hsplit
  | some parts =>
    obtain ⟨before, after⟩ := parts
    have htext := (eq_of_splitAtChar? hsplit).1
    rw [applyOperator_of_some hsplit] at h
    simp only [Noted.outcome_bind, Noted.outcome_ofExcept, Noted.outcome_note] at h
    cases ha : readNumber (operandBefore before) with
    | error e => rw [ha] at h; cases h
    | ok a =>
      cases hb : readNumber (operandAfter after) with
      | error e => rw [ha, hb] at h; cases h
      | ok b =>
        rw [ha, hb] at h
        exact symbol_notMem_of_applyOperator h
termination_by t.count o.symbol
decreasing_by
  rw [htext, ← count_step o before after (o.apply a b)]
  exact Nat.lt_succ_self _

/-- Where a symbol is not, applying operators does not bring it. -/
theorem symbol_notMem_step {o p : Operator} {before after : Text}
    (h : p.symbol ∉ before ++ o.symbol :: after) (x : Float) :
    p.symbol ∉ beforeOperand before ++ plainText x ++ afterOperand after := by
  have hb := congrArg (List.count p.symbol) (beforeOperand_append_operandBefore before)
  have ha := congrArg (List.count p.symbol) (operandAfter_append_afterOperand after)
  rw [← List.count_eq_zero, List.count_append, List.count_cons] at h
  rw [← List.count_eq_zero]
  simp only [List.count_append, count_symbol_plainText] at hb ha ⊢
  omega

/-- Operators are gone once all of them are applied. -/
theorem symbol_notMem_of_applyOperators {os : List Operator} {t u : Text}
    (h : (applyOperators os t).outcome = .ok u) {o : Operator} (ho : o ∈ os) : o.symbol ∉ u := by
  induction os generalizing t with
  | nil => cases ho
  | cons p os ih =>
    rw [applyOperators, Noted.outcome_bind] at h
    cases hp : (applyOperator p t).outcome with
    | error e => rw [hp] at h; cases h
    | ok w =>
      rw [hp] at h
      -- Once the operator is gone, the later ones do not bring it back.
      rcases List.mem_cons.1 ho with rfl | ho
      · exact applyOperators_invariant (P := fun t => o.symbol ∉ t)
          (fun q before after a b hq _ _ => symbol_notMem_step hq _)
          (symbol_notMem_of_applyOperator hp) h
      · exact ih h ho

/-- What each application of an operator keeps is kept up to the text that is read as the value,
which has no operator. -/
theorem exists_of_finish {P : Text → Prop} {t : Text} {v : Float}
    (hstep : ∀ (o : Operator) before after a b, P (before ++ o.symbol :: after) →
      readNumber (operandBefore before) = .ok a → readNumber (operandAfter after) = .ok b →
      P (beforeOperand before ++ plainText (o.apply a b) ++ afterOperand after))
    (ht : P (markBinaryMinus t)) (h : finish t = some v) :
    ∃ u, P u ∧ (∀ o : Operator, o.symbol ∉ u) ∧ readNumber (cancelMinusPairs u) = .ok v := by
  rw [finish] at h
  cases ho : (applyOperators Operator.all (markBinaryMinus t)).outcome with
  | error e => rw [ho] at h; cases h
  | ok u =>
    have hsymbol (o : Operator) : o.symbol ∉ u :=
      symbol_notMem_of_applyOperators ho (by cases o <;> decide)
    have hread : (readNumber (cancelMinusPairs u)).toOption = some v := by
      rw [ho] at h
      exact h
    refine ⟨u, applyOperators_invariant hstep ht ho, hsymbol, ?_⟩
    cases hr : readNumber (cancelMinusPairs u) with
    | error e =>
      rw [hr] at hread
      cases hread
    | ok w =>
      rw [hr] at hread
      cases hread
      rfl

/-! ## Characters that are kept -/

section Count

variable {p : Char → Bool}

/-- Marking subtraction keeps all characters but minuses. -/
theorem countP_markBinaryMinus (hp : p '-' = false) (hp' : p binaryMinus = false) (t : Text) :
    (markBinaryMinus t).countP p = t.countP p := by
  have after (q : Option Char) : (markBinaryMinusAfter q t).countP p = t.countP p := by
    induction t generalizing q with
    | nil => rfl
    | cons c t ih =>
      unfold markBinaryMinusAfter
      split
      next hc =>
        subst hc
        rw [List.countP_cons_of_neg (by simp [hp])]
        cases t with
        | nil => rfl
        | cons d t =>
          simp only
          rw [List.countP_cons_of_neg (by split <;> simp [hp, hp']), ih]
      next => rw [List.countP_cons, List.countP_cons, ih]
  exact after none

/-- Cancelling pairs of minuses keeps all other characters. -/
theorem countP_cancelMinusPairs (hp : p '-' = false) (t : Text) :
    (cancelMinusPairs t).countP p = t.countP p := by
  fun_induction cancelMinusPairs t with
  | case1 => rfl
  | case2 c => rfl
  | case3 a b t h ih =>
    rw [ih, List.countP_cons_of_neg (by simp [h.1, hp]), List.countP_cons_of_neg (by simp [h.2, hp])]
  | case4 a b t h ih => rw [List.countP_cons, ih, List.countP_cons (l := b :: t)]

/-- Applying an operator keeps the characters that are no symbols nor in operands. -/
theorem countP_step {o : Operator} (hp : ∀ c, isOperandChar c = true → p c = false) (hs : p o.symbol = false)
    (before after : Text) (x : Float) :
    (beforeOperand before ++ plainText x ++ afterOperand after).countP p =
      (before ++ o.symbol :: after).countP p + (plainText x).countP p := by
  have hb := congrArg (List.countP p) (beforeOperand_append_operandBefore before)
  have ha := congrArg (List.countP p) (operandAfter_append_afterOperand after)
  -- Operands are made of characters that are not counted.
  have hb0 : (operandBefore before).countP p = 0 := by
    rw [List.countP_eq_zero]
    intro c hc
    rw [operandBefore, List.mem_reverse] at hc
    rw [hp c (List.mem_takeWhile_imp hc)]
    exact Bool.false_ne_true
  have ha0 : (operandAfter after).countP p = 0 := by
    rw [List.countP_eq_zero]
    intro c hc
    rw [hp c (List.mem_takeWhile_imp hc)]
    exact Bool.false_ne_true
  simp only [List.countP_append] at hb ha ⊢
  rw [List.countP_cons_of_neg (by simp [hs])]
  omega

end Count

/-! ## Reserved characters -/

/-- The characters of operands are not reserved. -/
theorem isInert_of_isOperandChar {c : Char} (h : isOperandChar c = true) :
    Phrase.isInert c = true :=
  Phrase.isInert_of_all (by decide) h

/-- The characters of numbers are not reserved. -/
theorem isInert_of_isNumberChar {c : Char} (h : isNumberChar c = true) :
    Phrase.isInert c = true :=
  Phrase.isInert_of_all (by decide) h

/-- A text without calls that has a value has no reserved character. -/
theorem isInert_of_finish {t : Text} {v : Float} (h : finish t = some v) :
    ∀ c ∈ t, Phrase.isInert c = true := by
  by_contra hc
  push Not at hc
  obtain ⟨c, hct, hc⟩ := hc
  -- The number of reserved characters is what each step keeps.
  have hpos : 0 < t.countP fun c => !Phrase.isInert c :=
    List.countP_pos_iff.2 ⟨c, hct, by simpa using hc⟩
  obtain ⟨u, hu, -, hread⟩ := exists_of_finish
    (P := fun t => 0 < t.countP fun c => !Phrase.isInert c) (fun o before after a b hp _ _ => by
      rw [countP_step (o := o) (fun c hc => by rw [isInert_of_isOperandChar hc]; rfl)
        (by cases o <;> decide)]
      exact Nat.add_pos_left hp _)
    (by rw [countP_markBinaryMinus (by decide) (by decide)]; exact hpos) h
  rw [← countP_cancelMinusPairs (by decide)] at hu
  obtain ⟨d, hd, hd'⟩ := List.countP_pos_iff.1 hu
  rw [isInert_of_isNumberChar (isNumberChar_of_readNumber hread d hd)] at hd'
  cases hd'

/-! ## Crowded texts -/

/-- The text of a number has all letters of a name or a digit. -/
theorem IsNumberText.counts {t : Text} (h : IsNumberText t) :
    t.countP isNameLetter = 3 ∨ 0 < t.countP isAsciiDigit := by
  cases h with
  | nan => exact .inl (by decide)
  | infinite s => exact .inl (by cases s <;> decide)
  | @finite s whole fraction hw hf =>
    right
    obtain ⟨c, whole, rfl⟩ := List.exists_cons_of_ne_nil hw.1
    refine List.countP_pos_iff.2 ⟨c, ?_, hw.2 c List.mem_cons_self⟩
    cases s <;> simp [signed]

/-- A letter of a name is no character of operands. -/
theorem isOperandChar_of_isNameLetter {c : Char} (h : isNameLetter c = true) :
    isOperandChar c = false := by
  simpa using of_isNameLetter (p := fun c => !isOperandChar c) (by decide) h

/-- A crowded text without calls has no value. -/
theorem not_crowded_of_finish {t : Text} {v : Float} (h : finish t = some v) : ¬ Crowded t := by
  intro ht
  obtain ⟨u, hu, -, hread⟩ := exists_of_finish (P := Crowded) (fun o before after a b hp _ _ => by
      -- A step takes no letter away and may take digits, but its value brings digits or the letters
      -- of a name.
      have hletters := countP_step (o := o) (p := isNameLetter) (fun c hc => by
        rw [← Bool.not_eq_true]
        intro hn
        rw [isOperandChar_of_isNameLetter hn] at hc
        cases hc) (by cases o <;> decide) before after (o.apply a b)
      have hdigits : (plainText (o.apply a b)).countP isAsciiDigit ≤
          (beforeOperand before ++ plainText (o.apply a b) ++ afterOperand after).countP
            isAsciiDigit := by
        rw [List.countP_append, List.countP_append]
        omega
      have hcounts := (isNumberText_plainText (o.apply a b)).counts
      unfold Crowded at hp ⊢
      omega)
    (by
      unfold Crowded
      rw [countP_markBinaryMinus (by decide) (by decide),
        countP_markBinaryMinus (by decide) (by decide)]
      exact ht) h
  refine readNumber_crowded ?_ v hread
  unfold Crowded
  rw [countP_cancelMinusPairs (by decide), countP_cancelMinusPairs (by decide)]
  exact hu

/-! ## Pluses after letters -/

/-- A letter of a name of a number has a plus right after it. -/
def LetterPlus (t : Text) : Prop :=
  ∃ before c after, t = before ++ c :: '+' :: after ∧ isNameLetter c = true

/-- A letter of a name is no character of operands and no minus. -/
theorem isNameLetter_facts {c : Char} (h : isNameLetter c = true) :
    isOperandChar c = false ∧ c ≠ '-' ∧ ∀ o : Operator, o.symbol ≠ c := by
  refine ⟨isOperandChar_of_isNameLetter h, ?_, ?_⟩
  · rintro rfl
    exact absurd h (by decide)
  · rintro o rfl
    exact absurd h (by cases o <;> decide)

/-- Dropping from the front stops at the latest where the condition fails. -/
theorem dropWhile_append_cons {p : Char → Bool} {c : Char} (hc : p c = false) (t u : Text) :
    (t ++ c :: u).dropWhile p = t.dropWhile p ++ c :: u := by
  induction t with
  | nil => simp [hc]
  | cons d t ih =>
    rw [List.cons_append, List.dropWhile_cons, List.dropWhile_cons, ih]
    split <;> rfl

/-- Marking subtraction keeps a plus after a letter. -/
theorem letterPlus_markBinaryMinus {t : Text} (h : LetterPlus t) : LetterPlus (markBinaryMinus t) := by
  obtain ⟨before, c, after, rfl, hc⟩ := h
  have hminus := (isNameLetter_facts hc).2.1
  have aux (q : Option Char) : LetterPlus (markBinaryMinusAfter q (before ++ c :: '+' :: after)) := by
    induction before generalizing q with
    | nil =>
      refine ⟨[], c, markBinaryMinusAfter (some '+') after, ?_, hc⟩
      rw [List.nil_append, markBinaryMinusAfter.eq_def]
      simp only [if_neg hminus]
      rw [markBinaryMinusAfter.eq_def]
      rfl
    | cons d before ih =>
      obtain ⟨b, e, a, hb, he⟩ := ih (some d)
      -- Whatever the character before becomes, the letter and the plus come after it.
      have hcons (x : Char) : LetterPlus (x :: (b ++ e :: '+' :: a)) := ⟨x :: b, e, a, rfl, he⟩
      rw [List.cons_append, markBinaryMinusAfter.eq_def]
      simp only
      split
      · split
        next hnil => simp at hnil
        next d' t' ht =>
          rw [hb]
          exact hcons _
      · rw [hb]
        exact hcons _
  exact aux none

/-- Applying an operator keeps a plus after a letter, whose left operand is missing. -/
theorem letterPlus_step {o : Operator} {before after : Text} {a : Float}
    (h : LetterPlus (before ++ o.symbol :: after)) (ha : readNumber (operandBefore before) = .ok a)
    (x : Float) : LetterPlus (beforeOperand before ++ plainText x ++ afterOperand after) := by
  obtain ⟨u, c, v, huv, hc⟩ := h
  obtain ⟨hop, -, hsym⟩ := isNameLetter_facts hc
  rcases List.append_eq_append_iff.1 huv with ⟨w, rfl, hw⟩ | ⟨w, rfl, hw⟩
  · -- The operator is before the letter.
    cases w with
    | nil => exact absurd (List.cons.inj hw).1 (hsym o)
    | cons d w =>
      obtain ⟨-, hafter⟩ := List.cons.inj hw
      refine ⟨beforeOperand before ++ plainText x ++ w.dropWhile isOperandChar, c, v, ?_, hc⟩
      rw [show after = w ++ c :: '+' :: v from hafter, afterOperand, dropWhile_append_cons hop,
        List.append_assoc, List.append_assoc, List.append_assoc]
  · cases w with
    | nil => exact absurd (List.cons.inj hw).1.symm (hsym o)
    | cons d w =>
      obtain ⟨rfl, htail⟩ := List.cons.inj hw
      cases w with
      | nil =>
        -- The plus itself is applied, and the letter before it leaves no operand.
        rw [operandBefore, List.reverse_append, List.reverse_singleton, List.singleton_append,
          List.takeWhile_cons_of_neg (by rw [hop]; exact Bool.false_ne_true)] at ha
        cases ha
      | cons d w =>
        -- The operator is after the plus.
        obtain ⟨rfl, -⟩ := List.cons.inj (htail : '+' :: v = d :: (w ++ o.symbol :: after))
        have hreverse : (u ++ c :: '+' :: w).reverse = w.reverse ++ '+' :: c :: u.reverse := by simp
        refine ⟨u, c, (w.reverse.dropWhile isOperandChar).reverse ++ plainText x ++
          afterOperand after, ?_, hc⟩
        rw [beforeOperand, hreverse, dropWhile_append_cons (by decide)]
        simp

/-- A text without calls that has a value has no plus right after a letter. -/
theorem not_letterPlus_of_finish {t : Text} {v : Float} (h : finish t = some v) :
    ¬ LetterPlus t := by
  intro ht
  obtain ⟨w, ⟨x, c, y, rfl, hc⟩, -, hread⟩ := exists_of_finish (P := LetterPlus)
    (fun o before after a b hp ha _ => letterPlus_step hp ha (o.apply a b))
    (letterPlus_markBinaryMinus ht) h
  have hmem {d : Char} (hd : d ≠ '-') (hd' : d ∈ x ++ c :: '+' :: y) :
      d ∈ cancelMinusPairs (x ++ c :: '+' :: y) := by
    rw [← List.count_pos_iff, List.count, countP_cancelMinusPairs (by simpa using hd.symm)]
    exact List.count_pos_iff.2 hd'
  exact plus_notMem_of_readNumber hread (hmem (isNameLetter_facts hc).2.1 (by simp)) hc
    (hmem (by decide) (by simp))

end FormulaPlot
