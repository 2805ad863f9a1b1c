import FormulaPlot.Proofs.Number.Exponent
import FormulaPlot.Proofs.Number.Opposite
import FormulaPlot.Proofs.Operator.Literals
import FormulaPlot.Proofs.Phrase.Inside

/-!
# Groups around literals and minuses before groups

A literal is reduced to the number it is read as, in any number of groups that the limit allows
(`reduce_literal_in_groups`). A minus before a group or call that is the rest of a text gives the
opposite of its value, unless that is NaN (`reduce_negated`).

In both cases the engine puts the text of a number in the place of the group
(`toOption_reduce_call`). What is left then has no operator and no subtraction. At most its first
two minuses meet and are cancelled, if the value of the group is itself negative
(`finish_negated`).
-/

namespace FormulaPlot

/-- A text in which every minus is a sign and no operator stands is read as it is. -/
theorem finish_of_signsOnly {t : Text} (hsigns : SignsOnly none t)
    (hsymbol : ∀ o : Operator, o.symbol ∉ t) : finish t = (readNumber t).toOption := by
  have hmark : markBinaryMinus t = t := hsigns.markBinaryMinusAfter_eq
  rw [finish, hmark, Operand.applyOperators_of_notMem fun o _ => hsymbol o]
  exact congrArg (fun u => (readNumber u).toOption) hsigns.cancelMinusPairs_eq

/-- The text of a number has no operator. -/
theorem symbol_notMem_plainText (o : Operator) (x : Float) : o.symbol ∉ plainText x :=
  List.count_eq_zero.1 (count_symbol_plainText o x)

/-- The text of a number is read as it is. -/
theorem finish_plainText (x : Float) : finish (plainText x) = some x := by
  rw [finish_of_signsOnly (signsOnly_plainText x rfl) fun o => symbol_notMem_plainText o x,
    readNumber_plainText]
  rfl

/-- Two minuses before the text of a number cancel each other. -/
theorem finish_minus_minus {x : Float} (hhead : (plainText x).head? ≠ some '-') :
    finish ('-' :: '-' :: plainText x) = some x := by
  have hsigns : SignsOnly (some '-') (plainText x) :=
    (signsOnly_plainText x (q := none) rfl).of_head fun h => absurd h hhead
  -- No digit is before the two minuses, so neither is marked.
  have hmark : markBinaryMinus ('-' :: '-' :: plainText x) = '-' :: '-' :: plainText x := by
    obtain ⟨c, t, ht⟩ := List.exists_cons_of_ne_nil (Phrase.plainText_facts x).1
    have hrest := hsigns.markBinaryMinusAfter_eq
    rw [ht] at hrest ⊢
    simp [markBinaryMinus, markBinaryMinusAfter.eq_def _ ('-' :: _), hrest, isAsciiDigit]
  have hsymbol (o : Operator) : o.symbol ∉ '-' :: '-' :: plainText x := by
    have hminus : o.symbol ≠ '-' := by cases o <;> decide
    simp [hminus, symbol_notMem_plainText o x]
  have hcancel : cancelMinusPairs ('-' :: '-' :: plainText x) = plainText x :=
    hsigns.cancelMinusPairs_eq
  rw [finish, hmark, Operand.applyOperators_of_notMem fun o _ => hsymbol o]
  change (readNumber (cancelMinusPairs _)).toOption = _
  rw [hcancel, readNumber_plainText]
  rfl

/-- A minus before the text of a number gives the opposite number. -/
theorem finish_negated {x : Float} (hx : IsNumber x) : finish ('-' :: plainText x) = some (-x) := by
  obtain ⟨s, t, ht, hneg⟩ := exists_plainText_neg hx
  -- The minus is the sign of the opposite number, or it meets the minus of the number.
  cases s with
  | false =>
    have htext : plainText (-x) = '-' :: plainText x := by rw [hneg, ht]; rfl
    rw [← htext]
    exact finish_plainText (-x)
  | true =>
    have htext : plainText x = '-' :: plainText (-x) := by rw [hneg, ht]; rfl
    rw [htext]
    refine finish_minus_minus fun hhead => ?_
    -- The text of a number does not begin with two minuses.
    have hsigns := signsOnly_plainText x (q := none) rfl
    obtain ⟨u, hu⟩ : ∃ u, plainText (-x) = '-' :: u := List.head?_eq_some_iff.1 hhead
    rw [htext, hu] at hsigns
    exact absurd (hsigns.2.1 rfl).2 (by decide)

/-! ## Literals -/

/-- A literal is reduced to the number it is read as. -/
theorem toOption_reduce_literal {limit depth : Int} (hdepth : depth ≤ limit) {s : Text} {x : Float}
    (h : readNumber s = .ok x) : (reduce limit depth s).outcome.toOption = some x := by
  have hinert : ∀ c ∈ dropUnaryPlus s, Phrase.isInert c = true := fun c hc =>
    isInert_of_isNumberChar (isNumberChar_of_readNumber h c ((sublist_dropUnaryPlus s).subset hc))
  rw [toOption_reduce, if_neg (not_lt.2 hdepth), resolve_of_isInert limit depth _ hinert]
  -- What is left has signs only and no operator, so it is read as it is.
  change finish (dropUnaryPlus s) = some x
  rw [finish_of_signsOnly (signsOnly_literal h rfl) (symbol_notMem_literal h),
    readNumber_dropUnaryPlus h]
  rfl

/-- A literal in groups that the limit allows has the value of the literal. -/
theorem toOption_reduce_groups {limit depth : Int} {k : Nat} (hdepth : depth + k ≤ limit)
    {s : Text} {x : Float} (h : readNumber s = .ok x) :
    (reduce limit depth
      (List.replicate k '(' ++ s ++ List.replicate k ')')).outcome.toOption = some x := by
  induction k generalizing depth with
  | zero => simpa using toOption_reduce_literal (by simpa using hdepth) h
  | succ k ih =>
    have hdeeper : depth + 1 + k ≤ limit := by
      push_cast at hdepth
      omega
    -- The outermost group is all of the text, and its value is the same one level deeper.
    have hgroup := toOption_reduce_call false .group (ih hdeeper)
    have htext : List.replicate (k + 1) '(' ++ s ++ List.replicate (k + 1) ')' =
        '(' :: (List.replicate k '(' ++ s ++ List.replicate k ')' ++ [')']) := by
      rw [List.replicate_succ, List.replicate_succ']
      simp
    rw [htext]
    exact hgroup.trans (finish_plainText x)

/-- A literal in groups is reduced to the number it is read as. -/
theorem reduce_literal_in_groups {limit depth : Int} {k : Nat} (hdepth : depth + k ≤ limit)
    {s : Text} {x : Float} (h : readNumber s = .ok x) :
    (reduce limit depth (List.replicate k '(' ++ s ++ List.replicate k ')')).outcome = .ok x :=
  toOption_eq_some.1 (toOption_reduce_groups hdepth h)

/-- An exponent with a plus and a line end after it, in two groups. -/
theorem reduce_literal_in_groups_exponent :
    (0 : Int) + (2 : Nat) ≤ 64 ∧
      readNumber "-.5e+1\n".toList = .ok (Float.ofBits 0xc014000000000000) ∧
      (reduce 64 0 (List.replicate 2 '(' ++ "-.5e+1\n".toList ++ List.replicate 2 ')')).outcome =
        .ok (Float.ofBits 0xc014000000000000) := by
  have hread : readNumber "-.5e+1\n".toList = .ok (Float.ofBits 0xc014000000000000) := by
    decide +kernel
  exact ⟨by decide, hread, reduce_literal_in_groups (by decide) hread⟩

/-! ## Minuses -/

/-- A minus before a group gives the opposite of its value, and one before a call that of the
function's value, where the value is not NaN. -/
theorem reduce_negated {limit depth : Int} {t : Text} {v : Float}
    (h : (reduce limit (depth + 1) t).outcome = .ok v) :
    (IsNumber v → (reduce limit depth ('-' :: '(' :: (t ++ [')']))).outcome = .ok (-v)) ∧
      ∀ f : Builtin, IsNumber (f.apply v) →
        (reduce limit depth ('-' :: f.symbol ++ '(' :: (t ++ [')']))).outcome =
          .ok (-f.apply v) := by
  have hcall (k : Redex) (hk : IsNumber (k.apply v)) :
      (reduce limit depth ('-' :: (k.word ++ '(' :: (t ++ [')'])))).outcome = .ok (-k.apply v) := by
    rw [← toOption_eq_some]
    exact (toOption_reduce_call true k (toOption_eq_some.2 h)).trans (finish_negated hk)
  exact ⟨hcall .group, fun f hf => hcall (.call f) hf⟩

/-- The opposites of a negative difference and of a root. -/
theorem reduce_negated_difference :
    (reduce 64 1 "2-5".toList).outcome = .ok (Float.ofBits 0xc008000000000000) ∧
      IsNumber (Float.ofBits 0xc008000000000000) ∧
      (reduce 64 0 "-(2-5)".toList).outcome = .ok (-Float.ofBits 0xc008000000000000) ∧
      (reduce 64 1 "4+5".toList).outcome = .ok (Float.ofBits 0x4022000000000000) ∧
      IsNumber (Builtin.sqrt.apply (Float.ofBits 0x4022000000000000)) ∧
      (reduce 64 0 "-sqrt(4+5)".toList).outcome =
        .ok (-Builtin.sqrt.apply (Float.ofBits 0x4022000000000000)) := by
  have hgroup : (reduce 64 1 "2-5".toList).outcome = .ok (Float.ofBits 0xc008000000000000) := by
    decide +kernel
  have hcall : (reduce 64 1 "4+5".toList).outcome = .ok (Float.ofBits 0x4022000000000000) := by
    decide +kernel
  have hv : IsNumber (Float.ofBits 0xc008000000000000) := by
    unfold IsNumber
    decide +kernel
  have hw : IsNumber (Builtin.sqrt.apply (Float.ofBits 0x4022000000000000)) := by
    unfold IsNumber
    decide +kernel
  exact ⟨hgroup, hv, (@reduce_negated 64 0 _ _ hgroup).1 hv, hcall, hw,
    (@reduce_negated 64 0 _ _ hcall).2 .sqrt hw⟩

end FormulaPlot
