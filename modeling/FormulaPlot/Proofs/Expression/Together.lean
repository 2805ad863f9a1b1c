import FormulaPlot.Proofs.Expression.Written

/-!
# Numbers that run together

When a hyphen subtracts an operand with a minus, the two minuses are a pair, and the engine finds no
operator between the numbers. If anything else is joined to them the text has no value
(`finish_together`). If not, the pair is cancelled and the digits of the two numbers run together,
which gives a number if the first one has no point. So whatever value operands as they are written
have, it is that of their levels or that of two numbers that run together
(`of_finish_written`).
-/

namespace FormulaPlot

namespace Operand

/-- A plain operand with a minus has a point, as the text of a computed number has. -/
def Pointed (a : Operand) : Prop := a.plain = true → a.text.head? = some '-' → '.' ∈ a.text

/-- The text of a double has a point if it is finite. -/
theorem pointed_ofFloat (x : Float) : (ofFloat x).Pointed := by
  intro hplain _
  obtain ⟨s, whole, fraction, -, -, htext⟩ := plainText_of_isFinite hplain
  rw [show (ofFloat x).text = _ from htext]
  cases s <;> simp [signed]

/-- What a joint and the operand after it become once subtraction is marked has a mark. -/
theorem exists_mark (j : Joint) {b : Operand} (hb : b.plain = true) (hpoint : b.Pointed) :
    ∃ c ∈ mark j b.text :: b.text, isMark c = true := by
  unfold mark
  split
  next h => exact ⟨'.', List.mem_cons_of_mem _ (hpoint hb h.2), by decide⟩
  next h => exact ⟨_, List.mem_cons_self, by cases j with
    | hyphen => decide
    | operator o => cases o <;> decide⟩

/-- A plain operand with a minus has digits before its point. -/
theorem exists_pair {b : Operand} (hb : b.plain = true) (hpoint : b.Pointed)
    (hminus : b.text.head? = some '-') :
    ∃ whole fraction, (∀ c ∈ whole, isAsciiDigit c = true) ∧
      b.text = '-' :: (whole ++ ['.'] ++ fraction) := by
  obtain ⟨s, body, hbody, htext⟩ := exists_signed hb
  have hmem := hpoint hb hminus
  obtain ⟨c, v, hhead, hc⟩ := hbody.exists_head
  cases s with
  | false =>
    -- An unsigned number begins with a digit.
    rw [htext, hhead] at hminus
    obtain rfl : c = '-' := Option.some.inj hminus
    exact absurd hc (by decide)
  | true =>
    cases hbody with
    | whole hw =>
      rw [htext] at hmem
      rcases List.mem_cons.1 hmem with h | h
      · cases h
      · exact absurd (hw.2 _ h) (by decide)
    | @point whole fraction hw hf =>
      exact ⟨whole, fraction, hw.2, by rw [htext]; simp [signed]⟩

/-- What comes before a joint ends in a digit. -/
theorem exists_last_marked {a : Operand} {rest : List (Joint × Operand)} (ha : a.plain = true)
    (hrest : ∀ x ∈ rest, x.2.plain = true) :
    ∃ u d, a.text ++ marked rest = u ++ [d] ∧ isAsciiDigit d = true := by
  -- It ends as the last of the operands does.
  rcases List.eq_nil_or_concat rest with rfl | ⟨init, x, rfl⟩
  · simpa [marked] using exists_last ha
  · obtain ⟨u, d, hlast, hd⟩ := exists_last (hrest x (by simp))
    exact ⟨a.text ++ marked init ++ mark x.1 x.2.text :: u, d, by simp [marked, hlast], hd⟩

/-- Operands have no value if a hyphen comes before a minus and anything else is joined to the two
numbers, or the first one has a point. -/
theorem finish_together {a b : Operand} {init rest : List (Joint × Operand)} (ha : a.plain = true)
    (hrest : ∀ x ∈ init ++ (.hyphen, b) :: rest, x.2.plain = true ∧ x.2.Pointed)
    (hminus : b.text.head? = some '-') (hmore : init ≠ [] ∨ rest ≠ [] ∨ '.' ∈ a.text) :
    finish (written a (init ++ (.hyphen, b) :: rest)) = none := by
  apply finish_paired
  rw [markBinaryMinus_written ha fun x hx => (hrest x hx).1]
  obtain ⟨hb, hpoint⟩ := hrest (.hyphen, b) (by simp)
  obtain ⟨whole, fraction, hw, hbtext⟩ := exists_pair hb hpoint hminus
  have hinit : ∀ x ∈ init, x.2.plain = true := fun x hx => (hrest x (by simp [hx])).1
  obtain ⟨u, d, hlast, hd⟩ := exists_last_marked ha hinit
  -- The hyphen is not marked, so together with the minus it is a pair.
  have hmark : mark .hyphen b.text = '-' := if_pos ⟨rfl, hminus⟩
  have htext : a.text ++ marked (init ++ (.hyphen, b) :: rest) =
      u ++ pair d whole ++ (fraction ++ marked rest) := by
    calc a.text ++ marked (init ++ (.hyphen, b) :: rest)
        = a.text ++ marked init ++ '-' :: b.text ++ marked rest := by simp [marked, hmark]
      _ = u ++ [d] ++ '-' :: '-' :: (whole ++ ['.'] ++ fraction) ++ marked rest := by
        rw [hlast, hbtext]
      _ = u ++ pair d whole ++ (fraction ++ marked rest) := by simp [pair]
  refine ⟨u, d, whole, fraction ++ marked rest, htext, hd, hw, ?_⟩
  -- The last digit before the pair is no mark, so a mark before it is outside of the pair.
  have hbefore {c : Char} (hc : c ∈ a.text ++ marked init) (hm : isMark c = true) :
      ∃ c ∈ u ++ (fraction ++ marked rest), isMark c = true := by
    rw [hlast, List.mem_append, List.mem_singleton] at hc
    refine ⟨c, List.mem_append_left _ (hc.resolve_right ?_), hm⟩
    rintro rfl
    rw [isAsciiDigit_of_isMark hm] at hd
    cases hd
  have hjoint {x : Joint × Operand} {l : List (Joint × Operand)} (hx : x ∈ l)
      (hplain : x.2.plain = true ∧ x.2.Pointed) : ∃ c ∈ marked l, isMark c = true := by
    obtain ⟨c, hc, hm⟩ := exists_mark x.1 hplain.1 hplain.2
    exact ⟨c, List.mem_flatMap.2 ⟨x, hx, hc⟩, hm⟩
  -- Whatever else there is has a mark, by which the text keeps its pair.
  rcases hmore with hne | hne | hmem
  · obtain ⟨x, l, rfl⟩ := List.exists_cons_of_ne_nil hne
    obtain ⟨c, hc, hm⟩ := hjoint List.mem_cons_self (hrest x (by simp))
    exact hbefore (List.mem_append_right _ hc) hm
  · obtain ⟨x, l, rfl⟩ := List.exists_cons_of_ne_nil hne
    obtain ⟨c, hc, hm⟩ := hjoint (l := x :: l) List.mem_cons_self (hrest x (by simp))
    exact ⟨c, by simp [hc], hm⟩
  · exact hbefore (List.mem_append_left _ hmem) (by decide)

/-- Two operands run together: digits, a hyphen and a finite number with a minus. -/
def RunTogether (a b : Operand) : Prop :=
  (∀ c ∈ a.text, isAsciiDigit c = true) ∧ b.plain = true ∧ b.text.head? = some '-'

/-- Without operators there is nothing to apply. -/
theorem applyOperators_of_notMem {os : List Operator} {t : Text}
    (h : ∀ o ∈ os, o.symbol ∉ t) : applyOperators os t = pure t := by
  induction os with
  | nil => rfl
  | cons o os ih =>
    have hnone : splitAtChar? o.symbol t = none := by
      rw [← List.append_nil t, splitAtChar?_append (h o List.mem_cons_self)]
      rfl
    rw [applyOperators, applyOperator_of_none hnone]
    exact ih fun p hp => h p (List.mem_cons_of_mem o hp)

/-- The pair of minuses between two numbers that run together is cancelled. -/
theorem finish_of_runTogether {a b : Operand} (ha : a.plain = true) (h : RunTogether a b) :
    finish (written a [(.hyphen, b)]) = (readNumber (a.text ++ b.text.tail)).toOption := by
  obtain ⟨hdigits, hb, hminus⟩ := h
  obtain ⟨s, body, hbody, hbtext⟩ := exists_signed hb
  obtain ⟨c, v, hhead, hc⟩ := hbody.exists_head
  have hne : ∀ c ∈ a.text, c ≠ '-' := fun c hc he => absurd (hdigits c hc) (by rw [he]; decide)
  have hbminus : b.text = '-' :: body := by
    cases s with
    | false =>
      rw [hbtext, hhead] at hminus
      obtain rfl : c = '-' := Option.some.inj hminus
      exact absurd hc (by decide)
    | true => exact hbtext
  have hmark : mark .hyphen ('-' :: body) = '-' := if_pos ⟨rfl, rfl⟩
  have htext : markBinaryMinus (written a [(.hyphen, b)]) = a.text ++ '-' :: '-' :: body := by
    rw [markBinaryMinus_written ha (by simpa using hb)]
    simp [marked, hmark, hbminus]
  -- There is no operator to apply, and the text is read once its pair is cancelled.
  have hsymbol (o : Operator) : o.symbol ∉ a.text ++ '-' :: '-' :: body := by
    have hao := a.symbol_notMem o
    have hbo := b.symbol_notMem o
    rw [hbminus, List.mem_cons, not_or] at hbo
    simp [hao, hbo]
  have hcancel : cancelMinusPairs (a.text ++ '-' :: '-' :: body) = a.text ++ body := by
    rw [cancelMinusPairs_append fun hc => hne _ hc rfl, cancelMinusPairs, if_pos ⟨rfl, rfl⟩,
      cancelMinusPairs_eq_self fun hc => hbody.minus_notMem (List.mem_of_mem_tail hc)]
  rw [finish, htext, applyOperators_of_notMem fun o _ => hsymbol o, hbminus, List.tail_cons,
    ← hcancel]
  rfl

/-- The value of operands as they are written, if there is one, is that of two numbers that run
together or that of the levels of their operators. -/
theorem of_finish_written {a : Operand} {rest : List (Joint × Operand)} (hpoint : a.Pointed)
    (hpoints : ∀ x ∈ rest, x.2.Pointed) {w : Float} (h : finish (written a rest) = some w) :
    (∃ b, rest = [(.hyphen, b)] ∧ RunTogether a b ∧ readNumber (a.text ++ b.text.tail) = .ok w) ∨
    (¬ ∃ b, rest = [(.hyphen, b)] ∧ RunTogether a b) ∧
      ∃ x, levels combine? Operator.all a (meant rest) = some x ∧ x.1.value = w := by
  by_cases hhyphen : ∀ x ∈ rest, x.1 = .hyphen → x.2.text.head? ≠ some '-'
  · right
    rw [finish_written hhyphen, Option.map_eq_some_iff] at h
    refine ⟨?_, h⟩
    rintro ⟨b, rfl, hab⟩
    exact hhyphen _ List.mem_cons_self rfl hab.2.2
  left
  push Not at hhyphen
  obtain ⟨⟨j, b⟩, hx, hj, hminus⟩ := hhyphen
  obtain rfl : j = .hyphen := hj
  -- No operand is a name, as another one is joined to each.
  have hplain : a.plain = true ∧ ∀ x ∈ rest, x.2.plain = true := by
    by_contra hname
    rw [finish_written_of_name (List.ne_nil_of_mem hx)] at h
    · cases h
    · by_contra hno
      push Not at hno
      exact hname ⟨by simpa using hno.1, fun x hx => by simpa using hno.2 x hx⟩
  -- With anything around the two numbers there would be no value.
  obtain ⟨init, tail, rfl⟩ := List.append_of_mem hx
  have halone : ¬ (init ≠ [] ∨ tail ≠ [] ∨ '.' ∈ a.text) := fun hmore => by
    rw [finish_together hplain.1 (fun x hx => ⟨hplain.2 x hx, hpoints x hx⟩) hminus hmore] at h
    cases h
  push Not at halone
  obtain ⟨rfl, rfl, hpoint'⟩ := halone
  -- Without a point the first number has no minus either, so it is made of digits.
  have hdigits : ∀ c ∈ a.text, isAsciiDigit c = true := by
    obtain ⟨s, body, hbody, htext⟩ := exists_signed hplain.1
    cases s with
    | true => exact absurd (hpoint hplain.1 (by rw [htext]; rfl)) hpoint'
    | false =>
      rw [htext] at hpoint' ⊢
      cases hbody with
      | whole hw => exact hw.2
      | point hw hf => exact absurd (by simp [signed]) hpoint'
  have hab : RunTogether a b := ⟨hdigits, hplain.2 _ hx, hminus⟩
  refine ⟨b, rfl, hab, ?_⟩
  rw [List.nil_append, finish_of_runTogether hplain.1 hab] at h
  cases hr : readNumber (a.text ++ b.text.tail) with
  | error e =>
    rw [hr] at h
    cases h
  | ok x =>
    rw [hr] at h
    cases h
    rfl

end Operand

end FormulaPlot
