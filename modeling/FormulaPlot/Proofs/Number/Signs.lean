import FormulaPlot.Proofs.Number.Automaton

/-!
# Signs in literals

A literal has a minus only where a sign can be: at its start and after the mark of its exponent.
Something follows it there, and no digit stands before it. So within literals no minus is taken for
subtraction (`SignsOnly.markBinaryMinusAfter_eq`) and none meets another
(`SignsOnly.cancelMinusPairs_eq`).

A plus stands after the mark of an exponent only. It is dropped, and what is left is a literal
without plus (`accepts_dropUnaryPlus`).

Once the mark of an exponent is read, the text of a number leads nowhere, as it has a point or a
letter in it (`runFrom_exponential`). This is what happens to a value that comes to stand after the
mark.
-/

namespace FormulaPlot

/-! ## Texts with signs only -/

/-- Whether a minus after `previous` can be a sign: no digit and no other minus stands there. -/
def beforeSign (previous : Option Char) : Bool :=
  previous.all fun c => !isAsciiDigit c && c != '-'

/-- Every minus of a text after `previous` is a sign, with something after it. -/
def SignsOnly : Option Char → Text → Prop
  | _, [] => True
  | previous, c :: t =>
    (c = '-' → t ≠ [] ∧ beforeSign previous = true) ∧ SignsOnly (some c) t

namespace SignsOnly

variable {q r : Option Char} {t u : Text}

/-- No sign is marked as subtraction. -/
theorem markBinaryMinusAfter_eq (h : SignsOnly q t) : markBinaryMinusAfter q t = t := by
  induction t generalizing q with
  | nil => rfl
  | cons c t ih =>
    rw [markBinaryMinusAfter.eq_def]
    simp only [ih h.2]
    split
    next hc =>
      obtain ⟨hne, hq⟩ := h.1 hc
      cases t with
      | nil => exact absurd rfl hne
      | cons d t =>
        have hdigit : q.any isAsciiDigit = false := by
          cases q with
          | none => rfl
          | some p =>
            rw [beforeSign, Option.all_some, Bool.and_eq_true, Bool.not_eq_true'] at hq
            exact hq.1
        simp [hdigit]
    next => rfl

/-- No signs meet. -/
theorem cancelMinusPairs_eq (h : SignsOnly q t) : cancelMinusPairs t = t := by
  fun_induction cancelMinusPairs t generalizing q with
  | case1 => rfl
  | case2 c => rfl
  | case3 a b t hab ih =>
    -- The second minus of a pair has the first before it.
    have hb := (h.2.1 hab.2).2
    rw [hab.1] at hb
    cases hb
  | case4 a b t hab ih => rw [ih h.2]

/-- Only a minus at the start asks for what comes before. -/
theorem of_head (h : SignsOnly q t) (ht : t.head? = some '-' → beforeSign r = true) :
    SignsOnly r t := by
  cases t with
  | nil => trivial
  | cons c t => exact ⟨fun hc => ⟨(h.1 hc).1, ht (congrArg some hc)⟩, h.2⟩

/-- Two texts with signs only make one. -/
theorem append (hu : SignsOnly q u) (ht : SignsOnly (u.getLast?.or q) t) : SignsOnly q (u ++ t) := by
  induction u generalizing q with
  | nil => exact ht
  | cons c u ih =>
    refine ⟨fun hc => ⟨by simp [(hu.1 hc).1], (hu.1 hc).2⟩, ih hu.2 ?_⟩
    rwa [getLast?_cons_or] at ht

/-- The end of a text with signs only has signs only. -/
theorem right (h : SignsOnly q (u ++ t)) : SignsOnly (u.getLast?.or q) t := by
  -- The induction carries the character before along, as each one is the next one's.
  induction u generalizing q with
  | nil => exact h
  | cons c u ih =>
    rw [getLast?_cons_or]
    exact ih h.2

/-- The beginning of a text with signs only has signs only if it does not end in one. -/
theorem left (h : SignsOnly q (u ++ t)) (hlast : u.getLast? ≠ some '-') : SignsOnly q u := by
  induction u generalizing q with
  | nil => trivial
  | cons c u ih =>
    cases u with
    | nil =>
      refine ⟨fun hc => absurd (congrArg some hc) ?_, trivial⟩
      simpa using hlast
    | cons d u => exact ⟨fun hc => ⟨List.cons_ne_nil d u, (h.1 hc).2⟩, ih h.2 (by simpa using hlast)⟩

end SignsOnly

namespace Literal.State

/-! ## Where signs are read -/

/-- A text that is accepted does not begin with what leads nowhere. -/
theorem next_ne_dead {q : State} {c : Char} {t : Text} (h : (q.runFrom (c :: t)).accepts = true) :
    q.next c ≠ dead := by
  intro hdead
  rw [runFrom_cons, hdead, runFrom_dead] at h
  cases h

/-- A minus is read at the start and after the mark of an exponent. -/
theorem eq_of_next_minus {q : State} (h : q.next '-' ≠ dead) : q = start ∨ q = mark := by
  revert h
  cases q <;> decide

/-- A plus is read after the mark of an exponent. -/
theorem eq_of_next_plus {q : State} (h : q.next '+' ≠ dead) : q = mark := by
  revert h
  cases q <;> decide

/-- The mark of an exponent is a letter. -/
theorem eq_of_next_eq_mark {q : State} {c : Char} (h : q.next c = mark) : c = 'e' ∨ c = 'E' := by
  by_contra hc
  revert h
  cases q <;> simp only [next, closeMantissa, close, if_neg hc] <;> repeat' split
  all_goals exact fun h => State.noConfusion h

/-- Nothing leads back to the start. -/
theorem next_ne_start (q : State) (c : Char) : q.next c ≠ start := by
  cases q <;> simp only [next, closeMantissa, close] <;> repeat' split
  all_goals exact fun h => State.noConfusion h

/-- After its sign an exponent goes on with a digit, as it does without. -/
theorem next_mark_of_next_sign {c : Char} (h : sign.next c ≠ dead) : mark.next c = sign.next c := by
  rw [next] at h ⊢
  split at h
  next hc => rw [next, if_pos hc, if_pos hc]
  next => exact absurd rfl h

/-- What is accepted has signs only. -/
theorem signsOnly_of_accepts {q : State} {p : Option Char} {t : Text}
    (hp : q = start ∨ q = mark → beforeSign p = true) (h : (q.runFrom t).accepts = true) :
    SignsOnly p t := by
  induction t generalizing q p with
  | nil => trivial
  | cons c t ih =>
    refine ⟨?_, ih (q := q.next c) (fun hq => ?_) h⟩
    · rintro rfl
      have hq := eq_of_next_minus (next_ne_dead h)
      refine ⟨?_, hp hq⟩
      -- A sign by itself is not accepted.
      rintro rfl
      rcases hq with rfl | rfl <;> cases h
    · rcases eq_of_next_eq_mark (hq.resolve_left (next_ne_start q c)) with rfl | rfl <;> decide

/-- What is accepted does not end in a sign. -/
theorem getLast?_ne_of_accepts {q : State} {t : Text} {c : Char} (hc : c = '-' ∨ c = '+')
    (h : (q.runFrom t).accepts = true) : t.getLast? ≠ some c := by
  intro hlast
  obtain ⟨u, rfl⟩ := List.getLast?_eq_some_iff.1 hlast
  rw [runFrom_append] at h
  revert h
  rcases hc with rfl | rfl <;> cases q.runFrom u <;> decide

/-- What is accepted from the start does not begin with a plus. -/
theorem head?_ne_of_accepts {t : Text} (h : (start.runFrom t).accepts = true) :
    t.head? ≠ some '+' := by
  cases t with
  | nil => exact fun hhead => nomatch hhead
  | cons c t =>
    rintro ⟨⟩
    cases eq_of_next_plus (next_ne_dead h)

/-- Without its unary pluses a text is accepted where it was, and has no plus. -/
theorem accepts_dropUnaryPlusAfter {q : State} {p : Option Char} {t : Text}
    (hp : q = mark → p.any endsOperand = false) (h : (q.runFrom t).accepts = true) :
    (q.runFrom (dropUnaryPlusAfter p t)).accepts = true ∧ '+' ∉ dropUnaryPlusAfter p t := by
  induction t generalizing q p with
  | nil => exact ⟨h, List.not_mem_nil⟩
  | cons c t ih =>
    rw [dropUnaryPlusAfter]
    by_cases hc : c = '+'
    · -- A plus is read after a mark only. The mark ends no operand, so this plus goes.
      subst hc
      obtain rfl := eq_of_next_plus (next_ne_dead h)
      obtain ⟨haccepts, hplus⟩ := ih (q := sign) (p := some '+') (fun hq => nomatch hq) h
      rw [if_pos ⟨rfl, .inr (hp rfl)⟩]
      refine ⟨?_, hplus⟩
      -- The exponent is read without its sign as with it.
      cases hrest : dropUnaryPlusAfter (some '+') t with
      | nil =>
        rw [hrest] at haccepts
        cases haccepts
      | cons d u =>
        rw [hrest] at haccepts
        rwa [runFrom_cons, next_mark_of_next_sign (next_ne_dead haccepts), ← runFrom_cons]
    · rw [if_neg fun h => hc h.1]
      have hmark : q.next c = mark → (some c).any endsOperand = false := fun hq => by
        rcases eq_of_next_eq_mark hq with rfl | rfl <;> decide
      obtain ⟨haccepts, hplus⟩ := ih hmark h
      exact ⟨haccepts, by simp [Ne.symm hc, hplus]⟩

/-- Without its unary pluses a literal is a literal without plus. -/
theorem accepts_dropUnaryPlus {t : Text} (h : (start.runFrom t).accepts = true) :
    (start.runFrom (dropUnaryPlus t)).accepts = true ∧ '+' ∉ dropUnaryPlus t :=
  accepts_dropUnaryPlusAfter (fun hq => nomatch hq) h

/-! ## After the mark of an exponent -/

/-- Whether the mark of an exponent has been read, or nothing that begins a literal. -/
def isExponential : State → Bool
  | mark | sign | exponent | ended | dead => true
  | _ => false

/-- After the mark of an exponent comes nothing but the exponent. -/
theorem isExponential_runFrom {q : State} (hq : q.isExponential = true) (t : Text) :
    (q.runFrom t).isExponential = true := by
  induction t generalizing q with
  | nil => exact hq
  | cons c t ih =>
    -- One step keeps to these states; only there the character matters.
    refine ih ?_
    cases q <;> simp only [next, close] <;> (try cases hq) <;> repeat' split
    all_goals rfl

/-- The letter that marks exponents does nothing else. -/
theorem isExponential_next {c : Char} (hc : c = 'e' ∨ c = 'E') (q : State) :
    (q.next c).isExponential = true := by
  rcases hc with rfl | rfl <;> cases q <;> decide

/-- The text of a number leads nowhere after the mark of an exponent. -/
theorem runFrom_exponential {q : State} (hq : q.isExponential = true) {s : Text}
    (hs : IsNumberText s) : q.runFrom s = dead := by
  cases hs with
  | nan => cases q <;> first | rfl | cases hq
  | infinite b => cases b <;> cases q <;> first | rfl | cases hq
  | finite b hw hf =>
    -- After digits comes the point of the numeral, and no exponent goes on with one.
    rw [runFrom_signed hw hf (by cases q <;> first | rfl | cases hq)]
    cases q <;> first | rfl | cases hq

end Literal.State

end FormulaPlot
