import FormulaPlot.Proofs.Formula.Evaluate
import FormulaPlot.Proofs.Sample.Engine
import FormulaPlot.Proofs.Sample.Filled

/-!
# Formulas at two samples

What a formula's text and what its samples have to do with its errors (`Formula.evaluate_samples`).
Parentheses, nesting and length belong to the text: a formula with a value at one finite sample
fails at no other one for these. What can fail is that a number is read, next to an infinity or to a
second sign. So a formula has values at both of two samples or at neither if no result differs in
that it is finite, unless nothing is left beside it; and where the variable, a letter or a group
follows what goes on into a number (`Formula.touching`), if none differs in its sign.

Without this a formula can have a value at one sample and be malformed at another
(`Formula.malformed_at_one_sample`).
-/

namespace FormulaPlot

/-- Results that agree do so in both directions. -/
theorem agree_comm (signs : Bool) (w w' : List Step) : agree signs w w' = agree signs w' w := by
  induction w generalizing w' with
  | nil => cases w' <;> rfl
  | cons s m ih =>
    cases w' with
    | nil => rfl
    | cons s' m' =>
      have hat : agreeAt signs s m s' m' = agreeAt signs s' m' s m := by
        unfold agreeAt
        cases s.result? <;> cases s'.result? <;>
          simp only [eq_comm, Bool.and_comm]
      rw [agree, agree, ih, hat]

/-- Finite samples look the same but for their signs. -/
theorem similar_of_isFinite {a b : Float} (ha : isFinite a = true) (hb : isFinite b = true) :
    Similar false (plainText a) (plainText b) := by
  obtain ⟨s, whole, fraction, hw, hf, htext⟩ := plainText_of_isFinite ha
  obtain ⟨s', whole', fraction', hw', hf', htext'⟩ := plainText_of_isFinite hb
  refine ⟨isNumberText_plainText a, isNumberText_plainText b, ?_⟩
  rw [htext, htext', outline_signed ⟨_, _, hw, hf, rfl⟩, outline_signed ⟨_, _, hw', hf', rfl⟩]
  rfl

/-- The text of a finite double ends in a digit. -/
theorem getLast?_of_isFinite {a : Float} (ha : isFinite a = true) :
    (plainText a).getLast?.any isAsciiDigit = true := by
  obtain ⟨s, whole, fraction, hw, hf, htext⟩ := plainText_of_isFinite ha
  obtain ⟨c, hc, hdigit⟩ := IsNumeral.exists_getLast?_signed ⟨_, _, hw, hf, rfl⟩ s
  rw [htext, hc]
  exact hdigit

/-- If a text is reduced to a number with one finite sample in it then with another one it is that
of a phrase which varies from that of the first. -/
theorem exists_phrases {loose signs : Bool} {t : Text} {u : Char} {a b : Float}
    (ha : isFinite a = true) (hb : isFinite b = true)
    (hab : Similar signs (plainText a) (plainText b))
    (htouch : loose = true ∨ touches [] (dropUnaryPlus (substitute t u ['(', ')'])) = false)
    {limit : Int} {x : Float}
    (hx : (reduce limit 0 (substitute t u (plainText a))).outcome = .ok x) :
    ∃ p p', Phrase.Clear p ∧ Phrase.Settled none p ∧ Phrase.Varies loose signs false p p' ∧
      p.text = dropUnaryPlus (substitute t u (plainText a)) ∧
      p'.text = dropUnaryPlus (substitute t u (plainText b)) := by
  obtain ⟨p, hp, hs, htext⟩ := Phrase.exists_phrase (toOption_eq_some.2 hx)
  -- Both texts come from the one with empty groups in the places of the variable.
  have hfilled : Filled (plainText a) (plainText b) (dropUnaryPlus (substitute t u ['(', ')']))
      (dropUnaryPlus (substitute t u (plainText a)))
      (dropUnaryPlus (substitute t u (plainText b))) :=
    (filled_substituteAfter (plainText a) (plainText b) u none t).dropUnaryPlusAfter hab.left
      hab.right (getLast?_of_isFinite ha) (getLast?_of_isFinite hb) rfl rfl
  rw [← htext] at hfilled
  have hpre : Outside [] := fun _ hc => nomatch hc
  obtain ⟨p', hvaries, htext'⟩ :=
    hfilled.exists_varies hab hp.clean hpre htouch (b := false) fun h => nomatch h
  exact ⟨p, p', hp, hs, hvaries, htext, htext'⟩

namespace Formula

variable {cfg : Settings} {f : Formula} {a b : Float}

/-- Whether the variable, a letter or a group of a formula follows what goes on into a number. -/
def touching (f : Formula) : Bool :=
  touches [] (dropUnaryPlus
    (substitute (f.text.toList.filter fun c => !isBlank c) f.unknown ['(', ')']))

/-- A formula with a value at a double has a text that is not too long. -/
theorem exists_prepare {x : Float} (hx : (f.evaluate cfg (.real a)).outcome = .ok x) :
    (∀ b : Float, f.prepare cfg (.real b) =
      .ok (substitute (f.text.toList.filter fun c => !isBlank c) f.unknown (plainText b))) ∧
    (reduce (depthLimit cfg) 0
      (substitute (f.text.toList.filter fun c => !isBlank c) f.unknown (plainText a))).outcome =
        .ok x := by
  have hprepare : ∀ b : Float, f.prepare cfg (.real b) =
      .ok (substitute (f.text.toList.filter fun c => !isBlank c) f.unknown (plainText b)) := by
    intro b
    cases hn : normalize cfg.maxInputLength f.text.toList with
    | error e =>
      have herror : f.prepare cfg (.real a) = .error e := by rw [prepare_real, hn]; rfl
      rw [evaluate_of_error herror] at hx
      cases hx
    | ok t =>
      rw [prepare_real, hn]
      simp only [normalize] at hn
      split at hn
      · cases hn
      · cases hn
        rfl
  refine ⟨hprepare, ?_⟩
  rw [← toOption_eq_some, ← toOption_evaluate (hprepare a), hx]
  rfl

/-- A formula fails as its text does if that is not because of depth. -/
theorem errs_evaluate {P : EvalError → Prop} {v : Quantity} {t : Text} (h : f.prepare cfg v = .ok t)
    (hP : ∀ limit, ¬ P (.tooDeep limit)) (ht : (reduce (depthLimit cfg) 0 t).Errs P) :
    (f.evaluate cfg v).Errs P := by
  intro e he
  rw [evaluate, h, Noted.outcome_bind, Noted.outcome_ofExcept] at he
  unfold depthLimit at ht
  change (ite _ _ _ : Run Float).outcome = _ at he
  split at he
  -- A limit out of reach is told as depth too, and then the run did not fail otherwise.
  next hle => rw [if_pos hle] at ht; exact ht e he
  next hle =>
    rw [if_neg hle] at ht
    change Except.mapError _ _ = _ at he
    cases hout : (reduce (reach cfg) 0 t).outcome with
    | ok x => rw [hout] at he; cases he
    | error e' =>
      have hdeep := ht e' hout
      rw [hout] at he
      obtain rfl := Except.error.inj he
      cases e' with
      | tooDeep limit => exact absurd hdeep (hP limit)
      | _ => exact hdeep

/-- A formula that has a value at one finite sample fails at another one only as numbers do. -/
theorem errs_of_evaluate (ha : isFinite a = true) (hb : isFinite b = true) {x : Float}
    (hx : (f.evaluate cfg (.real a)).outcome = .ok x) {P : EvalError → Prop}
    (hnumeric : EvalError.Numeric P) (hP : ∀ limit, ¬ P (.tooDeep limit)) :
    (f.evaluate cfg (.real b)).Errs P := by
  obtain ⟨hprepare, hreduce⟩ := exists_prepare hx
  obtain ⟨p, p', hp, hs, hvaries, htext, htext'⟩ := exists_phrases ha hb (similar_of_isFinite ha hb)
    (.inl (rfl : true = true)) hreduce
  obtain ⟨hdepth, u, hu⟩ := exists_of_reduce hreduce
  rw [← htext] at hu
  -- The calls are as deep as those of the first sample, which were not too deep.
  have hfits := ((Phrase.resolve_text_iff 0 p hp hs (Phrase.atLeast_zero p) u).1
    (toOption_eq_some.2 hu)).1
  exact errs_evaluate (hprepare b) hP (Phrase.errs_reduce_text hnumeric (hvaries.clear hp)
    (hvaries.settled hs) hdepth (hvaries.fits_iff.1 hfits) htext')

/-- A formula that has a value at one finite sample has one at another sample if the runs agree. -/
theorem exists_of_agree (ha : isFinite a = true) (hb : isFinite b = true)
    (hab : outline f.touching (plainText a) = outline f.touching (plainText b))
    (hagree : agree f.touching (f.evaluate cfg (.real a)).notes (f.evaluate cfg (.real b)).notes =
      true) (hx : ∃ x, (f.evaluate cfg (.real a)).outcome = .ok x) :
    ∃ y, (f.evaluate cfg (.real b)).outcome = .ok y := by
  obtain ⟨x, hx⟩ := hx
  obtain ⟨hprepare, hreduce⟩ := exists_prepare hx
  have htouch : f.touching = true ∨ f.touching = false := by cases f.touching <;> simp
  obtain ⟨p, p', hp, hs, hvaries, htext, htext'⟩ := exists_phrases ha hb
    ⟨isNumberText_plainText a, isNumberText_plainText b, hab⟩ htouch hreduce
  rw [notes_evaluate (hprepare a), notes_evaluate (hprepare b)] at hagree
  obtain ⟨y, hy, -⟩ := Phrase.follows_reduce hp hs hvaries htext htext' x [] [] hreduce
    (List.append_nil _).symm (List.append_nil _).symm (absurd rfl) hagree
  refine ⟨y, toOption_eq_some.1 ?_⟩
  rw [toOption_evaluate (hprepare b), hy]
  rfl

/-- A formula at two finite samples. If it has a value at the first then at the second it can fail
only because a number is missing or is none, so not by its parentheses, its nesting or its length.
And where the runs agree it has a value at both or at neither: every result of a function, group or
operator is finite in both runs or the same name in both, unless each is all that is left of what it
stands in; and the results and samples have the same signs, unless in the text nothing goes on into
the variable, a letter or a group. -/
theorem evaluate_samples (cfg : Settings) (f : Formula) {a b : Float} (ha : isFinite a = true)
    (hb : isFinite b = true) :
    ((∃ x, (f.evaluate cfg (.real a)).outcome = .ok x) →
      (f.evaluate cfg (.real b)).Errs fun e =>
        e.code = "MISSING_OPERAND" ∨ e.code = "INVALID_NUMBER") ∧
      (outline f.touching (plainText a) = outline f.touching (plainText b) →
        agree f.touching (f.evaluate cfg (.real a)).notes (f.evaluate cfg (.real b)).notes = true →
          ((∃ x, (f.evaluate cfg (.real a)).outcome = .ok x) ↔
            ∃ y, (f.evaluate cfg (.real b)).outcome = .ok y)) := by
  refine ⟨fun ⟨x, hx⟩ => errs_of_evaluate ha hb hx ⟨fun _ => .inl rfl, fun _ => .inr rfl⟩ ?_,
    fun hab hagree => ⟨exists_of_agree ha hb hab hagree, ?_⟩⟩
  · intro limit
    simp [EvalError.code]
  · rw [agree_comm] at hagree
    exact exists_of_agree hb ha hab.symm hagree

/-- The reciprocal of a difference at 5 and at its pole. The second result is infinite, but nothing
is left beside it. -/
theorem evaluate_samples_pole :
    let f : Formula := ⟨"1/(x-3)", 'x'⟩
    let a := Float.ofBits 0x4014000000000000
    let b := Float.ofBits 0x4008000000000000
    isFinite a = true ∧ isFinite b = true ∧
      outline f.touching (plainText a) = outline f.touching (plainText b) ∧
      agree f.touching (f.evaluate {} (.real a)).notes (f.evaluate {} (.real b)).notes = true ∧
      (f.evaluate {} (.real a)).outcome = .ok (Float.ofBits 0x3FE0000000000000) ∧
      (∃ y, (f.evaluate {} (.real b)).outcome = .ok y) ∧
      (f.evaluate {} (.real b)).Errs fun e =>
        e.code = "MISSING_OPERAND" ∨ e.code = "INVALID_NUMBER" := by
  intro f a b
  have ha : isFinite a = true := by decide +kernel
  have hb : isFinite b = true := by decide +kernel
  have hab : outline f.touching (plainText a) = outline f.touching (plainText b) := by
    decide +kernel
  have hagree : agree f.touching (f.evaluate {} (.real a)).notes (f.evaluate {} (.real b)).notes =
      true := by decide +kernel
  have hok : (f.evaluate {} (.real a)).outcome = .ok (Float.ofBits 0x3FE0000000000000) := by
    decide +kernel
  obtain ⟨herrs, hiff⟩ := evaluate_samples {} f ha hb
  exact ⟨ha, hb, hab, hagree, hok, (hiff hab hagree).1 ⟨_, hok⟩, herrs ⟨_, hok⟩⟩

/-- At 0 the reciprocal of the variable is infinite and what is added to it finds no number, and at
-1 the sum that begins with the negated variable begins with two minuses. At 1 both formulas have
values. -/
theorem malformed_at_one_sample :
    let f : Formula := ⟨"1/x+1", 'x'⟩
    let g : Formula := ⟨"-x+1", 'x'⟩
    let zero := Float.ofBits 0x0000000000000000
    let one := Float.ofBits 0x3FF0000000000000
    let minusOne := Float.ofBits 0xBFF0000000000000
    isFinite zero = true ∧ isFinite one = true ∧ isFinite minusOne = true ∧
      (f.evaluate {} (.real one)).outcome = .ok (Float.ofBits 0x4000000000000000) ∧
      (f.evaluate {} (.real zero)).outcome = .error (.missingOperand []) ∧
      (g.evaluate {} (.real one)).outcome = .ok zero ∧
      (g.evaluate {} (.real minusOne)).outcome = .error (.invalidNumber "--1.0".toList) := by
  decide +kernel

end Formula

end FormulaPlot
