import FormulaPlot.Proofs.Formula.Standalone
import FormulaPlot.Proofs.Operator.Level
import FormulaPlot.Proofs.Position.Engine

/-!
# Operands by position

The operand before a position and the operand after one are slices whose other ends the loops
`operandStart` and `operandEnd` find. They are the runs that the recursion on lists takes
(`leftOperand_append`, `rightOperand_append`).

The engine writes a value between what is before and after the operands it came from, and later
scans for it from either side. `operands_around_plainText` says what the two scans find there, when
the characters around the value are none of operands. The text of a finite value is found in full
and is read as that very value. Of `inf`, `-inf` and `nan` nothing is found or only the minus, which
is no number, so that no operator ever takes a part of such a name for its operand.
-/

namespace FormulaPlot.Position

/-- The operand that ends right before a position. -/
def leftOperand (t : Text) (i : Nat) : Attempt Text := do
  let start ← operandStart t i
  pure (slice t start i)

/-- The operand that starts right after a position. -/
def rightOperand (t : Text) (i : Nat) : Attempt Text := do
  let stop ← operandEnd t (i + 1)
  pure (slice t (i + 1) stop)

/-- The operand before a piece of text that follows is the run at the end of what is before. -/
theorem leftOperand_append (u v : Text) : leftOperand (u ++ v) u.length = pure (operandBefore u) := by
  have hslice := slice_append (beforeOperand u) (operandBefore u) v
  rw [← List.length_append, beforeOperand_append_operandBefore] at hslice
  rw [leftOperand, operandStart_eq, pure_bind, hslice]

/-- The operand after a character is the run at the start of what is after it. -/
theorem rightOperand_append (u : Text) (c : Char) (v : Text) :
    rightOperand (u ++ c :: v) u.length = pure (operandAfter v) := by
  have hend := operandEnd_eq (u ++ [c]) v
  have hslice := slice_append (u ++ [c]) (operandAfter v) (afterOperand v)
  rw [List.append_assoc (u ++ [c]), operandAfter_append_afterOperand] at hslice
  rw [List.append_assoc, List.singleton_append, List.length_append, List.length_singleton] at *
  rw [rightOperand, hend, pure_bind, hslice]

/-- A character of operands is no letter, no parenthesis and no symbol of an operator. -/
theorem notation_of_isOperandChar {c : Char} (h : isOperandChar c = true) :
    isAsciiLetter c = false ∧ c ≠ '(' ∧ c ≠ ')' ∧ ∀ o : Operator, c ≠ o.symbol := by
  refine ⟨?_, ?_, ?_, fun o hc => ?_⟩
  · -- Letters are above the digits, the point and the minus.
    by_contra hletter
    have hlow := (toNat_of_isAsciiLetter (Bool.not_eq_false _ ▸ hletter)).1
    simp only [isOperandChar, Bool.or_eq_true, decide_eq_true_eq] at h
    rcases h with (hdigit | rfl) | rfl
    · have hhigh : c.toNat ≤ 57 := (Char.isDigit_iff_toNat.1 hdigit).2
      omega
    · exact absurd hlow (by decide)
    · exact absurd hlow (by decide)
  · rintro rfl
    cases h
  · rintro rfl
    cases h
  · rw [hc, isOperandChar_symbol] at h
    cases h

/-! ## A value between two texts -/

/-- The scan from the left finds the operand at the start of what is put in after a text. -/
theorem rightOperand_splice {a : Text} (ha : a ≠ []) (s b : Text) :
    rightOperand (a ++ s ++ b) (a.length - 1) = pure (operandAfter (s ++ b)) := by
  obtain ⟨u, p, rfl⟩ := (List.eq_nil_or_concat' a).resolve_left ha
  have hright := rightOperand_append u p (s ++ b)
  simpa using hright

/-- The scan from the right finds the operand at the end of what is put in before a text. -/
theorem leftOperand_splice (a s b : Text) :
    leftOperand (a ++ s ++ b) (a.length + s.length) = pure (operandBefore (a ++ s)) := by
  rw [← List.length_append]
  exact leftOperand_append (a ++ s) b

/-- A text that ends, or begins, with no character of operands ends a run of them. -/
theorem endsRun_of_map {q : Option Char} (h : q.map isOperandChar = some false) : EndsRun q := by
  cases q with
  | none => cases h
  | some c => simpa [EndsRun] using h

variable {v : Float} {a b : Text}

/-- The text of a finite value is an operand from both sides. -/
theorem operands_of_isFinite (hfin : isFinite v = true) (ha : EndsRun a.getLast?)
    (hb : EndsRun b.head?) :
    operandAfter (plainText v ++ b) = plainText v ∧ operandBefore (a ++ plainText v) = plainText v :=
  have hchars := Operand.isOperandChar (a := .ofFloat v) hfin
  ⟨(operandAfter_append hchars hb).1, (operandBefore_append hchars ha).1⟩

/-- At the names of infinity and of no number a number is missing on both sides. -/
theorem missing_operands (hinf : isFinite v = false) (a b : Text) :
    readNumber (operandAfter (plainText v ++ b)) =
        .error (.missingOperand (operandAfter (plainText v ++ b))) ∧
      readNumber (operandBefore (a ++ plainText v)) =
        .error (.missingOperand (operandBefore (a ++ plainText v))) := by
  constructor
  · -- The name begins with a letter, perhaps after a minus.
    rcases Operand.operandAfter_of_name (a := .ofFloat v) hinf b with h | h <;>
      rw [show operandAfter (plainText v ++ b) = _ from h] <;> rfl
  · rw [show operandBefore (a ++ plainText v) = [] from
      Operand.operandBefore_of_name (a := .ofFloat v) hinf a]
    rfl

/-- What the scans for operands find of a value. The value is read back from its text as it is. In
a text where the characters next to it are none of operands, a finite value is found in full by the
scan from the left and by the scan from the right, and there is nothing in it but characters of
operands. Of any other value both find a text in which a number is missing. -/
theorem operands_around_plainText (v : Float) :
    readNumber (plainText v) = .ok v ∧
      ∀ a b : Text, a.getLast?.map isOperandChar = some false →
        b.head?.map isOperandChar = some false →
        let s := a ++ plainText v ++ b
        (isFinite v = true →
          rightOperand s (a.length - 1) = pure (plainText v) ∧
          leftOperand s (a.length + (plainText v).length) = pure (plainText v) ∧
          ∀ c ∈ plainText v, isOperandChar c = true ∧ isAsciiLetter c = false ∧ c ≠ '(' ∧ c ≠ ')' ∧
            ∀ o : Operator, c ≠ o.symbol) ∧
        (isFinite v = false → ∃ l r,
          rightOperand s (a.length - 1) = pure r ∧ readNumber r = .error (.missingOperand r) ∧
          leftOperand s (a.length + (plainText v).length) = pure l ∧
          readNumber l = .error (.missingOperand l)) := by
  refine ⟨readNumber_plainText v, fun a b ha hb => ?_⟩
  intro s
  have hne : a ≠ [] := by
    rintro rfl
    cases ha
  -- Both scans are those of the lists, on either side of the text of the value.
  rw [rightOperand_splice hne, leftOperand_splice]
  constructor
  · intro hfin
    -- The characters around it end both runs, so these are the text and no more.
    obtain ⟨hafter, hbefore⟩ := operands_of_isFinite hfin (endsRun_of_map ha) (endsRun_of_map hb)
    refine ⟨congrArg pure hafter, congrArg pure hbefore, fun c hc => ?_⟩
    have hchar : isOperandChar c = true := Operand.isOperandChar (a := .ofFloat v) hfin c hc
    exact ⟨hchar, notation_of_isOperandChar hchar⟩
  · intro hinf
    obtain ⟨hafter, hbefore⟩ := missing_operands hinf a b
    exact ⟨_, _, rfl, hafter, rfl, hbefore⟩

/-- Half is found in full between an operator and a parenthesis, and of minus infinity neither scan
finds a number. -/
theorem operands_around_plainText_product :
    let low := Float.ofBits 0xFFF0000000000000
    ("2*".toList.getLast?.map isOperandChar = some false ∧
        ")".toList.head?.map isOperandChar = some false) ∧
      rightOperand "2*0.5)".toList 1 = pure "0.5".toList ∧
      leftOperand "2*0.5)".toList 5 = pure "0.5".toList ∧
      isFinite low = false ∧
      ∃ l r, rightOperand ("2*".toList ++ plainText low ++ ")".toList) 1 = pure r ∧
        readNumber r = .error (.missingOperand r) ∧
        leftOperand ("2*".toList ++ plainText low ++ ")".toList) (2 + (plainText low).length) =
          pure l ∧
        readNumber l = .error (.missingOperand l) := by
  intro low
  have ha : "2*".toList.getLast?.map isOperandChar = some false := by decide
  have hb : ")".toList.head?.map isOperandChar = some false := by decide
  have hhalf : plainText (Float.ofBits 0x3FE0000000000000) = "0.5".toList := by decide +kernel
  have hlow : isFinite low = false := by decide +kernel
  have hfin := ((operands_around_plainText (Float.ofBits 0x3FE0000000000000)).2 _ _ ha hb).1
    (by decide +kernel)
  rw [hhalf] at hfin
  exact ⟨⟨ha, hb⟩, hfin.1, hfin.2.1, hlow, ((operands_around_plainText low).2 _ _ ha hb).2 hlow⟩

end FormulaPlot.Position
