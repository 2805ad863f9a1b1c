import FormulaPlot.Formula.Group
import FormulaPlot.Formula.Table
import FormulaPlot.Number.Layout

/-!
# The characters of a number's text

The text that stands for a computed number is made of digits, points, minuses and the letters of
`inf` and `nan` (`isPlainChar_of_mem_plainText`). So it opens no group (`openings_plainText`) and
holds no operator (`count_symbol_plainText`), and splicing it into a formula brings no new work.
-/

namespace FormulaPlot

/-- The characters that the text of a number may have. -/
def isPlainChar (c : Char) : Bool :=
  isAsciiDigit c || ['.', '-', 'i', 'n', 'f', 'a'].contains c

/-- Digits are digits. -/
theorem isPlainChar_of_mem_toDigits {c : Char} {n : Nat} (h : c ∈ Nat.toDigits 10 n) :
    isPlainChar c = true := by
  have := Nat.isDigit_of_mem_toDigits (by decide) (by decide) h
  simp only [Char.isDigit, Bool.and_eq_true, decide_eq_true_eq, ge_iff_le] at this
  simp only [isPlainChar, isAsciiDigit, Bool.or_eq_true, Bool.and_eq_true, decide_eq_true_eq]
  exact .inl this

/-- A number written positionally is made of digits and a point. -/
theorem isPlainChar_of_mem_writePositional {c : Char} {b : Bool} {d : Decimal}
    (h : c ∈ Layout.writePositional b d) : isPlainChar c = true := by
  have zeros {k : Nat} (hc : c ∈ List.replicate k '0') : isPlainChar c = true := by
    rw [List.eq_of_mem_replicate hc]; decide
  simp only [Layout.writePositional] at h
  split at h
  · simp only [List.mem_append] at h
    rcases h with (h | h) | h
    · exact isPlainChar_of_mem_toDigits h
    · exact zeros h
    · split at h
      · simp only [List.mem_cons, List.not_mem_nil, or_false] at h
        rcases h with rfl | rfl <;> decide
      · cases h
  · split at h
    · simp only [List.mem_append, List.mem_cons] at h
      rcases h with h | rfl | h
      · exact isPlainChar_of_mem_toDigits (List.mem_of_mem_take h)
      · decide
      · exact isPlainChar_of_mem_toDigits (List.mem_of_mem_drop h)
    · simp only [List.cons_append, List.mem_append, List.mem_cons] at h
      rcases h with rfl | rfl | h | h
      · decide
      · decide
      · exact zeros h
      · exact isPlainChar_of_mem_toDigits h

/-- The text of a number is made of digits, points, minuses and the letters of `inf` and `nan`. -/
theorem isPlainChar_of_mem_plainText {c : Char} {x : Float} (h : c ∈ plainText x) :
    isPlainChar c = true := by
  have named {l : Text} (hl : l.all isPlainChar = true) (hc : c ∈ l) : isPlainChar c = true :=
    List.all_eq_true.1 hl c hc
  have sign {s : Bool} {l : Text} (hc : c ∈ signed s l) : c = '-' ∨ c ∈ l := by
    cases s
    · exact .inr hc
    · exact List.mem_cons.1 hc
  simp only [plainText, writeFloat] at h
  split at h
  · exact named (by decide) h
  · rcases sign h with rfl | h
    · decide
    · exact named (by decide) h
  · rcases sign h with rfl | h
    · decide
    · exact isPlainChar_of_mem_writePositional h

/-- The text of a number holds no character that numbers have not. -/
theorem count_plainText {c : Char} (hc : isPlainChar c = false) (x : Float) :
    (plainText x).count c = 0 :=
  List.count_eq_zero.2 fun h => by simp [isPlainChar_of_mem_plainText h] at hc

/-- The text of a number opens no group. -/
theorem openings_plainText (x : Float) : openings (plainText x) = 0 :=
  count_plainText (by decide) x

/-- The text of a number holds no operator. -/
theorem count_symbol_plainText (o : Operator) (x : Float) : (plainText x).count o.symbol = 0 :=
  count_plainText (by cases o <;> decide) x

end FormulaPlot
