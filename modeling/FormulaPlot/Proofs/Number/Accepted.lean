import FormulaPlot.Proofs.Number.Grammar

/-!
# What is read as a number

A text that is read as a number is one of three names or is made of the characters of decimal
numbers, with one line end at most (`parse?_cases`). So no text is read as a number that has
all letters of a name and something else that counts (`readNumber_crowded`), or a character that no
number has (`isNumberChar_of_readNumber`).
-/

namespace FormulaPlot

open DecimalDigit

namespace Literal

/-- The characters of decimal numbers. -/
def isDecimalChar (c : Char) : Bool := isDecimal c || ['.', '-', '+', 'e', 'E'].contains c

/-- The names of numbers. -/
def names : List Text := [['n', 'a', 'n'], ['i', 'n', 'f'], ['-', 'i', 'n', 'f']]

/-- A digit of a script is a character of decimal numbers. -/
theorem isDecimalChar_of_isDecimal {c : Char} (h : isDecimal c = true) : isDecimalChar c = true := by
  rw [isDecimalChar, h, Bool.true_or]

/-- Digits are characters of decimal numbers. -/
theorem Digits.isDecimalChar {u : Text} {n : Nat} (h : Digits u n) :
    ∀ c ∈ u, isDecimalChar c = true :=
  fun c hc => isDecimalChar_of_isDecimal (h.isDecimal c hc)

/-- A mantissa has only characters of decimal numbers. -/
theorem Mantissa.isDecimalChar {u : Text} {q : ℚ} (h : Mantissa u q) :
    ∀ c ∈ u, isDecimalChar c = true := by
  cases h with
  | whole hu _ => exact hu.isDecimalChar
  | point hu hv _ =>
    exact List.forall_mem_append.2 ⟨hu.isDecimalChar, List.forall_mem_cons.2
      ⟨by decide, hv.isDecimalChar⟩⟩

/-- An exponent has only characters of decimal numbers. -/
theorem Exponent.isDecimalChar {e : Text} {k : Int} (h : Exponent e k) :
    ∀ c ∈ e, isDecimalChar c = true := by
  have hmark {c : Char} (hc : IsMark c) : Literal.isDecimalChar c = true := by
    rcases hc with rfl | rfl <;> decide
  cases h with
  | none => exact fun c hc => absurd hc List.not_mem_nil
  | plain hc hu _ => exact List.forall_mem_cons.2 ⟨hmark hc, hu.isDecimalChar⟩
  | plus hc hu _ | minus hc hu _ =>
    exact List.forall_mem_cons.2 ⟨hmark hc, List.forall_mem_cons.2 ⟨by decide, hu.isDecimalChar⟩⟩

/-- A decimal number has only characters of decimal numbers. -/
theorem Writes.isDecimalChar {t : Text} {s : Bool} {q : ℚ} (h : Writes t s q) :
    ∀ c ∈ t, isDecimalChar c = true := by
  cases h with
  | mk s hu hv =>
    have hbody := List.forall_mem_append.2 ⟨hu.isDecimalChar, hv.isDecimalChar⟩
    cases s with
    | false => exact hbody
    | true => exact List.forall_mem_cons.2 ⟨by decide, hbody⟩

/-- What is read as a decimal number has only characters of decimal numbers. -/
theorem isDecimalChar_of_parseDecimal? {t : Text} {l : Literal} (h : parseDecimal? t = some l) :
    ∀ c ∈ t, isDecimalChar c = true := by
  obtain ⟨s, q, hwrites⟩ := exists_writes h
  exact hwrites.isDecimalChar

/-- What is read as a number is a name or a decimal number, with one line end at most. -/
theorem mem_names_or_exists_writes {t : Text} {l : Literal} (h : parse? t = some l) :
    dropLineEnd t ∈ names ∨ ∃ s q, Writes (dropLineEnd t) s q := by
  unfold parse? at h
  simp only at h
  split at h
  next hn => exact .inl (by simp [hn, names])
  split at h
  next hn => exact .inl (by simp [hn, names])
  split at h
  next hn => exact .inl (by simp [hn, names])
  next => exact .inr (exists_writes h)

/-- What is read as a number is a name or has only characters of decimal numbers, with one line end
at most. -/
theorem parse?_cases {t : Text} {l : Literal} (h : parse? t = some l) :
    dropLineEnd t ∈ names ∨ ∀ c ∈ dropLineEnd t, isDecimalChar c = true :=
  (mem_names_or_exists_writes h).imp_right fun ⟨_, _, hwrites⟩ => hwrites.isDecimalChar

/-- A text is what is left without its line end, perhaps with a line end. -/
theorem eq_dropLineEnd_or (t : Text) : t = dropLineEnd t ∨ t = dropLineEnd t ++ ['\n'] := by
  rw [dropLineEnd]
  split
  next h =>
    obtain ⟨u, rfl⟩ := List.getLast?_eq_some_iff.1 h
    exact .inr (by rw [List.dropLast_concat])
  next => exact .inl rfl

/-- The characters of a text are those without its line end and perhaps the line end. -/
theorem mem_dropLineEnd {t : Text} {c : Char} (hc : c ∈ t) : c ∈ dropLineEnd t ∨ c = '\n' := by
  rcases eq_dropLineEnd_or t with h | h
  · exact .inl (h ▸ hc)
  · rw [h] at hc
    simpa using hc

end Literal

open Literal

/-- What has a value as a number is a literal. -/
theorem parse?_of_readNumber {t : Text} {x : Float} (h : readNumber t = .ok x) :
    ∃ l, parse? t = some l := by
  rw [readNumber] at h
  split at h
  next l hl => exact ⟨l, hl⟩
  next => split at h <;> cases h

/-- The letters of the names of numbers. -/
def isNameLetter (c : Char) : Bool := ['i', 'n', 'f', 'a'].contains c

/-- A text with all letters of a name of a number and with another letter or a digit. -/
def Crowded (t : Text) : Prop :=
  3 ≤ t.countP isNameLetter ∧ 4 ≤ t.countP isNameLetter + t.countP isAsciiDigit

/-- A line end counts for nothing. -/
theorem countP_dropLineEnd {p : Char → Bool} (hp : p '\n' = false) (t : Text) :
    (dropLineEnd t).countP p = t.countP p := by
  rcases eq_dropLineEnd_or t with h | h
  · rw [← h]
  · conv_rhs => rw [h]
    rw [List.countP_append, List.countP_singleton, hp]
    rfl

/-- What is true of four letters is true of the letters of names. -/
theorem of_isNameLetter {p : Char → Bool} (hp : ['i', 'n', 'f', 'a'].all p = true) {c : Char}
    (h : isNameLetter c = true) : p c = true :=
  List.all_eq_true.1 hp c (List.contains_iff_mem.1 h)

/-- The letters of names are no characters of decimal numbers. -/
theorem isDecimalChar_of_isNameLetter {c : Char} (h : isNameLetter c = true) :
    isDecimalChar c = false := by
  simpa using of_isNameLetter (p := fun c => !isDecimalChar c) (by decide) h

/-- A crowded text is not read as a number. -/
theorem readNumber_crowded {t : Text} (ht : Crowded t) (x : Float) : readNumber t ≠ .ok x := by
  intro h
  obtain ⟨l, hl⟩ := parse?_of_readNumber h
  unfold Crowded at ht
  rw [← countP_dropLineEnd (p := isNameLetter) (by decide) t,
    ← countP_dropLineEnd (p := isAsciiDigit) (by decide) t] at ht
  rcases parse?_cases hl with hname | hdec
  · -- A name has three of its letters and no digit, which is one character too few.
    have hall : ∀ u ∈ names, u.countP isNameLetter = 3 ∧ u.countP isAsciiDigit = 0 := by decide
    have := hall _ hname
    omega
  · -- A decimal number has no letter of a name at all.
    have : (dropLineEnd t).countP isNameLetter = 0 := by
      rw [List.countP_eq_zero]
      intro c hc hn
      have := hdec c hc
      rw [isDecimalChar_of_isNameLetter hn] at this
      cases this
    omega

/-- The characters of numbers: those of decimal numbers and of names, and the line end. -/
def isNumberChar (c : Char) : Bool := isDecimalChar c || isNameLetter c || c = '\n'

/-- What is read as a number has only characters of numbers. -/
theorem isNumberChar_of_readNumber {t : Text} {x : Float} (h : readNumber t = .ok x) :
    ∀ c ∈ t, isNumberChar c = true := by
  obtain ⟨l, hl⟩ := parse?_of_readNumber h
  intro c hc
  rcases mem_dropLineEnd hc with hc | rfl
  · rcases parse?_cases hl with hname | hdec
    · have hall : ∀ u ∈ names, u.all isNumberChar = true := by decide
      exact List.all_eq_true.1 (hall _ hname) c hc
    · rw [isNumberChar, hdec c hc]
      rfl
  · decide

/-- What is read as a number and has a letter of a name is a name, with one line end at most. -/
theorem mem_names_of_readNumber {t : Text} {x : Float} (h : readNumber t = .ok x) {c : Char}
    (hc : c ∈ t) (hn : isNameLetter c = true) : dropLineEnd t ∈ names := by
  obtain ⟨l, hl⟩ := parse?_of_readNumber h
  have hc' := (mem_dropLineEnd hc).resolve_right (by rintro rfl; exact absurd hn (by decide))
  refine (parse?_cases hl).resolve_right fun hdec => ?_
  have hdecimal := hdec c hc'
  rw [isDecimalChar_of_isNameLetter hn] at hdecimal
  cases hdecimal

/-- No name of a number has a plus. -/
theorem plus_notMem_of_readNumber {t : Text} {x : Float} (h : readNumber t = .ok x) {c : Char}
    (hc : c ∈ t) (hn : isNameLetter c = true) : '+' ∉ t := by
  intro hplus
  have hall : ∀ u ∈ names, '+' ∉ u := by decide
  exact hall _ (mem_names_of_readNumber h hc hn)
    ((mem_dropLineEnd hplus).resolve_right (by decide))

/-- No name of a number has a digit. -/
theorem isAsciiDigit_of_readNumber {t : Text} {x : Float} (h : readNumber t = .ok x) {c d : Char}
    (hc : c ∈ t) (hn : isNameLetter c = true) (hd : d ∈ t) : isAsciiDigit d = false := by
  have hall : ∀ u ∈ names, u.all (fun c => !isAsciiDigit c) = true := by decide
  rcases mem_dropLineEnd hd with hd | rfl
  · simpa using List.all_eq_true.1 (hall _ (mem_names_of_readNumber h hc hn)) d hd
  · decide

/-! ## Points -/

namespace Literal

/-- Digits are no points. -/
theorem Digits.count_point {u : Text} {n : Nat} (h : Digits u n) : u.count '.' = 0 := by
  rw [List.count_eq_zero]
  exact fun hc => absurd (h.isDecimal _ hc) (by decide)

/-- A mantissa has at most one point. -/
theorem Mantissa.count_point {u : Text} {q : ℚ} (h : Mantissa u q) : u.count '.' ≤ 1 := by
  cases h with
  | whole hu _ => rw [hu.count_point]; exact Nat.zero_le 1
  | point hu hv _ =>
    rw [List.count_append, List.count_cons_self, hu.count_point, hv.count_point]

/-- An exponent has no point. -/
theorem Exponent.count_point {e : Text} {k : Int} (h : Exponent e k) : e.count '.' = 0 := by
  have hne {c : Char} (hc : IsMark c) : c ≠ '.' := hc.ne (by decide)
  cases h with
  | none => rfl
  | plain hc hu _ => rw [List.count_cons_of_ne (hne hc), hu.count_point]
  | plus hc hu _ | minus hc hu _ =>
    rw [List.count_cons_of_ne (hne hc), List.count_cons_of_ne (by decide), hu.count_point]

/-- A decimal number has at most one point. -/
theorem Writes.count_point {t : Text} {s : Bool} {q : ℚ} (h : Writes t s q) : t.count '.' ≤ 1 := by
  cases h with
  | @mk u v q k s hu hv =>
    have hbody : (signed s (u ++ v)).count '.' = (u ++ v).count '.' := by
      cases s with
      | false => rfl
      | true => exact List.count_cons_of_ne (by decide)
    rw [hbody, List.count_append, hv.count_point]
    exact hu.count_point

end Literal

/-- What is read as a number has at most one point. -/
theorem count_point_of_readNumber {t : Text} {x : Float} (h : readNumber t = .ok x) :
    t.count '.' ≤ 1 := by
  obtain ⟨l, hl⟩ := parse?_of_readNumber h
  have hend : (dropLineEnd t).count '.' = t.count '.' := countP_dropLineEnd (by decide) t
  rw [← hend]
  rcases mem_names_or_exists_writes hl with hname | ⟨s, q, hwrites⟩
  · have hall : ∀ u ∈ names, u.count '.' ≤ 1 := by decide
    exact hall _ hname
  · exact hwrites.count_point

end FormulaPlot
