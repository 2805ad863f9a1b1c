import FormulaPlot.Proofs.Number.Signs
import FormulaPlot.Proofs.Phrase.Sign

/-!
# The plus of an exponent

A literal has a plus after the mark of its exponent only, and there it means nothing. Dropping unary
pluses takes it away, as the mark ends no operand, and what is left is read as the same number
(`readNumber_dropUnaryPlus`).

The reader takes a literal apart from the front, and the mark ends each of the parts before it. So
these parts are the same with and without the plus (`mantissa?_append_cons`), and only the exponent
itself is to be looked at (`exponent?_of_plus`).
-/

namespace FormulaPlot

open DecimalDigit

namespace Literal

variable {c : Char} {u x : Text}

/-- A mark ends no operand. -/
theorem IsMark.endsOperand_eq (hc : IsMark c) : endsOperand c = false := by
  rcases hc with rfl | rfl <;> decide

/-! ## The parts before the mark -/

/-- A run of digits ends at a character that is none. -/
theorem digitRun_append_cons (hc : isDecimal c = false) (u x : Text) :
    digitRun (u ++ c :: x) = ((digitRun u).1, (digitRun u).2 ++ c :: x) := by
  induction u with
  | nil =>
    rw [List.nil_append, State.digitRun_cons, if_neg (by rw [hc]; exact Bool.false_ne_true)]
    rfl
  | cons d u ih =>
    rw [List.cons_append, State.digitRun_cons, State.digitRun_cons]
    split
    · rw [ih]
    · rfl

/-- A mantissa ends at the mark of an exponent. -/
theorem mantissa?_append_cons (hc : IsMark c) (u x : Text) :
    mantissa? (u ++ c :: x) = (mantissa? u).map fun (w, f, rest) => (w, f, rest ++ c :: x) := by
  have hdigit := hc.isDecimal_eq
  have hpoint : c ≠ '.' := hc.ne (by decide)
  unfold mantissa?
  simp only [digitRun_append_cons hdigit]
  obtain ⟨whole, rest⟩ := digitRun u
  -- The mark ends the first run of digits, or the second one after a point.
  cases rest with
  | nil =>
    simp only [List.nil_append, if_neg hpoint]
    split <;> rfl
  | cons d rest =>
    simp only [List.cons_append, digitRun_append_cons hdigit]
    split
    · split <;> rfl
    · split <;> rfl

/-- The minus of a literal stands before the mark. -/
theorem minus_append_cons (hc : IsMark c) (u x : Text) :
    minus (u ++ c :: x) = ((minus u).1, (minus u).2 ++ c :: x) := by
  cases u with
  | nil => simp [minus, hc.ne (d := '-') (by decide)]
  | cons d u =>
    rw [List.cons_append, minus, minus]
    split <;> rfl

/-- The line end of a text that goes on after a character is that of what follows. -/
theorem dropLineEnd_append_cons (hc : c ≠ '\n') (u x : Text) :
    dropLineEnd (u ++ c :: x) = u ++ c :: dropLineEnd x := by
  rcases List.eq_nil_or_concat' x with rfl | ⟨y, d, rfl⟩
  · rw [dropLineEnd, List.getLast?_concat, if_neg (by simpa using hc)]
    rfl
  · rw [dropLineEnd, dropLineEnd, ← List.cons_append, ← List.append_assoc, List.getLast?_concat,
      List.getLast?_concat, List.dropLast_concat, List.dropLast_concat]
    split <;> simp

/-! ## The exponent -/

/-- An exponent with a plus is read in the same way without it. -/
theorem exponent?_of_plus (hc : IsMark c) {rest : Text} {e : Int}
    (h : exponent? (rest ++ c :: '+' :: x) = some e) : exponent? (rest ++ c :: x) = some e := by
  cases rest with
  | nil =>
    have hplus : sign ('+' :: x) = (false, x) := rfl
    rw [List.nil_append, exponent?_cons, if_pos (show c = 'e' ∨ c = 'E' from hc), hplus] at h
    -- The exponent begins with a digit, which is no sign.
    have hsign : sign x = (false, x) := by
      cases x with
      | nil => rfl
      | cons d x =>
        have hdigit : isDecimal d = true := by
          by_contra hd
          rw [State.digitRun_cons, if_neg hd] at h
          cases h
        rw [sign, if_neg (by rintro rfl; exact absurd hdigit (by decide)),
          if_neg (by rintro rfl; exact absurd hdigit (by decide))]
    rw [List.nil_append, exponent?_cons, if_pos (show c = 'e' ∨ c = 'E' from hc), hsign]
    exact h
  | cons d rest =>
    -- A second mark is no digit.
    exfalso
    rw [List.cons_append, exponent?_cons] at h
    split at h
    next =>
      have hmem : c ∈ (sign (rest ++ c :: '+' :: x)).2 := by
        cases rest with
        | nil => simp [sign, hc.ne (d := '-') (by decide), hc.ne (d := '+') (by decide)]
        | cons s rest =>
          rw [List.cons_append, sign]
          split
          · simp
          split
          · simp
          · simp
      split at h
      next hrun =>
        obtain ⟨w, htext, -, hw⟩ := exists_digits (sign (rest ++ c :: '+' :: x)).2
        rw [hrun, List.append_nil] at htext
        have hdigit := hw.isDecimal c (htext ▸ hmem)
        rw [hc.isDecimal_eq] at hdigit
        cases hdigit
      next => cases h
    next => cases h

/-- A literal with a plus in its exponent is the same literal without it. -/
theorem parse?_of_plus (hc : IsMark c) {l : Literal} (h : parse? (u ++ c :: '+' :: x) = some l) :
    parse? (u ++ c :: x) = some l := by
  have hend : c ≠ '\n' := hc.ne (by decide)
  -- The text has a mark in it, which no name of a number has.
  have hname (y : Text) : u ++ c :: y ∉ names := by
    intro hmem
    have hall : ∀ n ∈ names, 'e' ∉ n ∧ 'E' ∉ n := by decide
    obtain ⟨h1, h2⟩ := hall _ hmem
    rcases hc with rfl | rfl
    · exact h1 (by simp)
    · exact h2 (by simp)
  have hdecimal (y : Text) : parse? (u ++ c :: y) = parseDecimal? (u ++ c :: dropLineEnd y) := by
    have := hname (dropLineEnd y)
    simp only [names, List.mem_cons, List.not_mem_nil, or_false, not_or] at this
    rw [parse?]
    simp only [dropLineEnd_append_cons hend, if_neg this.1, if_neg this.2.1, if_neg this.2.2]
  have hplus : dropLineEnd ('+' :: x) = '+' :: dropLineEnd x :=
    dropLineEnd_append_cons (u := []) (by decide) x
  rw [hdecimal, hplus] at h
  rw [hdecimal]
  unfold parseDecimal? at h ⊢
  -- The parts before the mark are the same on both sides.
  simp only [minus_append_cons hc, mantissa?_append_cons hc] at h ⊢
  cases hm : mantissa? (minus u).2 with
  | none => rw [hm] at h; cases h
  | some parts =>
    obtain ⟨whole, fraction, rest⟩ := parts
    rw [hm] at h
    obtain ⟨e, he, hl⟩ := Option.map_eq_some_iff.1 h
    exact Option.map_eq_some_iff.2 ⟨e, exponent?_of_plus hc he, hl⟩

namespace State

/-- Whether the mark of an exponent and more has been read. -/
def isPastMark : State → Bool
  | sign | exponent | ended | dead => true
  | _ => false

/-- What is accepted after the mark of an exponent and more has no plus. -/
theorem plus_notMem_of_isPastMark {q : State} (hq : q.isPastMark = true) {t : Text}
    (h : (q.runFrom t).accepts = true) : '+' ∉ t := by
  induction t generalizing q with
  | nil => exact List.not_mem_nil
  | cons d t ih =>
    have hnext : (q.next d).isPastMark = true := by
      cases q <;> simp only [next, close] <;> (try cases hq) <;> repeat' split
      all_goals rfl
    rw [List.mem_cons, not_or]
    refine ⟨?_, ih hnext h⟩
    rintro rfl
    -- A plus is read after the mark alone, and this one is past.
    rw [eq_of_next_plus (next_ne_dead h)] at hq
    cases hq

/-- A literal with a plus has it after the mark of its exponent, and no other one. -/
theorem exists_mark_of_plus {t : Text} (h : (start.runFrom t).accepts = true) (hplus : '+' ∈ t) :
    ∃ u c x, t = u ++ c :: '+' :: x ∧ IsMark c ∧ '+' ∉ u ∧ '+' ∉ x := by
  obtain ⟨v, x, rfl, hv⟩ := List.eq_append_cons_of_mem hplus
  rw [runFrom_append] at h
  have hmark := eq_of_next_plus (next_ne_dead h)
  have hx : '+' ∉ x := by
    rw [hmark] at h
    exact plus_notMem_of_isPastMark (q := sign) rfl h
  rcases List.eq_nil_or_concat' v with rfl | ⟨u, c, rfl⟩
  · cases hmark
  · rw [runFrom_append] at hmark
    exact ⟨u, c, x, by simp, eq_of_next_eq_mark hmark, fun hu => hv (by simp [hu]), hx⟩

end State

end Literal

open Literal

/-- Without its unary pluses a literal is read as the same number. -/
theorem readNumber_dropUnaryPlus {t : Text} {v : Float} (h : readNumber t = .ok v) :
    readNumber (dropUnaryPlus t) = .ok v := by
  by_cases hplus : '+' ∈ t
  · obtain ⟨u, c, x, rfl, hc, hu, hx⟩ :=
      State.exists_mark_of_plus (exists_readNumber_iff.1 ⟨v, h⟩) hplus
    have hfront : '+' ∉ u ++ [c] := by simp [hu, (hc.ne (d := '+') (by decide)).symm]
    -- The only plus goes, as the mark before it ends no operand.
    have htext : dropUnaryPlus (u ++ c :: '+' :: x) = u ++ c :: x := by
      have hdrop := Phrase.dropUnaryPlusAfter_append hfront none ('+' :: x)
      have hrest := Phrase.dropUnaryPlusAfter_append hx (some '+') []
      rw [List.append_nil, dropUnaryPlusAfter, List.append_nil] at hrest
      rw [List.getLast?_concat, Option.some_or, dropUnaryPlusAfter,
        if_pos ⟨rfl, .inr hc.endsOperand_eq⟩, hrest] at hdrop
      rw [dropUnaryPlus]
      simpa using hdrop
    obtain ⟨l, hl⟩ := parse?_of_readNumber h
    rw [readNumber, hl] at h
    rw [htext, readNumber, parse?_of_plus hc hl]
    exact h
  · have hdrop := Phrase.dropUnaryPlusAfter_append hplus none []
    rw [List.append_nil, dropUnaryPlusAfter, List.append_nil] at hdrop
    rw [dropUnaryPlus, hdrop]
    exact h

end FormulaPlot
