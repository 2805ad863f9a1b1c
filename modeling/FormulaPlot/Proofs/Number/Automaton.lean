import FormulaPlot.Proofs.Number.Accepted

/-!
# The automaton of literals

Which texts are literals can be told by a finite automaton that takes one character after the other
(`isSome_parse?`). What a text does to the automaton depends on a numeral in it only by its place:
two numerals with digits on both sides of a point lead from every state to the same state
(`runFrom_numeral`), and so do two of which one has a minus, unless the text before goes on into
them (`runFrom_signed`).
-/

namespace FormulaPlot

namespace Literal

open DecimalDigit

/-- What has been read of a literal. -/
inductive State where
  | start
  | minus
  /-- One or more digits. -/
  | whole
  /-- A point with no digit before it. -/
  | point
  /-- Digits and a point, in any order. -/
  | fraction
  /-- The mark of an exponent. -/
  | mark
  /-- The mark and the sign of an exponent. -/
  | sign
  /-- One or more digits of an exponent. -/
  | exponent
  /-- The first letter, the first two letters or all letters of a name. -/
  | n
  | na
  | i
  | inf
  | name
  /-- A literal and a line end. -/
  | ended
  /-- What begins no literal. -/
  | dead
deriving DecidableEq

namespace State

/-- What follows a literal: nothing but a line end. -/
def close (c : Char) : State := if c = '\n' then ended else dead

/-- What follows a mantissa: an exponent or the end of the literal. -/
def closeMantissa (c : Char) : State := if c = 'e' ∨ c = 'E' then mark else close c

/-- What has been read after one more character. -/
def next : State → Char → State
  | start, c =>
    if isDecimal c then whole
    else if c = '.' then point
    else if c = '-' then minus
    else if c = 'n' then n
    else if c = 'i' then i
    else dead
  | minus, c =>
    if isDecimal c then whole
    else if c = '.' then point
    else if c = 'i' then i
    else dead
  | whole, c => if isDecimal c then whole else if c = '.' then fraction else closeMantissa c
  | point, c => if isDecimal c then fraction else dead
  | fraction, c => if isDecimal c then fraction else closeMantissa c
  | mark, c => if isDecimal c then exponent else if c = '-' ∨ c = '+' then sign else dead
  | sign, c => if isDecimal c then exponent else dead
  | exponent, c => if isDecimal c then exponent else close c
  | n, c => if c = 'a' then na else dead
  | na, c => if c = 'n' then name else dead
  | i, c => if c = 'n' then inf else dead
  | inf, c => if c = 'f' then name else dead
  | name, c => close c
  | ended, _ => dead
  | dead, _ => dead

/-- What has been read after a text. -/
def runFrom (q : State) (t : Text) : State := t.foldl next q

/-- Whether a literal has been read, without a line end. -/
def isComplete : State → Bool
  | whole | fraction | exponent | name => true
  | _ => false

/-- Whether a literal has been read, perhaps with a line end. -/
def accepts (q : State) : Bool := q.isComplete || q == ended

@[simp] theorem runFrom_nil (q : State) : q.runFrom [] = q := rfl

@[simp] theorem runFrom_cons (q : State) (c : Char) (t : Text) :
    q.runFrom (c :: t) = (q.next c).runFrom t := rfl

@[simp] theorem runFrom_append (q : State) (t u : Text) :
    q.runFrom (t ++ u) = (q.runFrom t).runFrom u := List.foldl_append

/-- Nothing goes on after what begins no literal. -/
theorem runFrom_dead (t : Text) : dead.runFrom t = dead := by
  induction t with
  | nil => rfl
  | cons c t ih => exact ih

/-- What begins no literal is none. -/
theorem isComplete_dead (t : Text) : (dead.runFrom t).isComplete = false := by
  rw [runFrom_dead]
  rfl

/-- A literal that is closed is not complete without its line end. -/
theorem isComplete_close (c : Char) (t : Text) : ((close c).runFrom t).isComplete = false := by
  rw [close]
  split
  · cases t with
    | nil => rfl
    | cons d t => exact isComplete_dead t
  · exact isComplete_dead t

/-! ## Parts of literals -/

/-- The values of digits are left of a text that begins with a digit. -/
theorem digitRun_cons (c : Char) (t : Text) :
    digitRun (c :: t) =
      if isDecimal c then ((digitValue? c).toList ++ (digitRun t).1, (digitRun t).2)
      else ([], c :: t) := by
  rw [digitRun, List.takeWhile_cons, List.dropWhile_cons]
  split
  next h =>
    cases hd : digitValue? c with
    | none => rw [isDecimal, hd] at h; cases h
    | some d => simp [digitRun, hd]
  next => rfl

/-- A digit has a value. -/
theorem digitRun_ne_nil {c : Char} (hc : isDecimal c = true) (t : Text) :
    (digitRun (c :: t)).1 ≠ [] := by
  rw [digitRun_cons, if_pos hc]
  cases hd : digitValue? c with
  | none => rw [isDecimal, hd] at hc; cases hc
  | some d => simp

/-- An exponent goes on with digits to its end. -/
theorem isComplete_exponent (t : Text) :
    (exponent.runFrom t).isComplete = ((digitRun t).2 == []) := by
  induction t with
  | nil => rfl
  | cons c t ih =>
    rw [runFrom_cons, next, digitRun_cons]
    split
    · exact ih
    · rw [isComplete_close]; rfl

/-- After its sign an exponent is one or more digits. -/
theorem isComplete_sign (t : Text) :
    (sign.runFrom t).isComplete = ((digitRun t).1 != [] && (digitRun t).2 == []) := by
  cases t with
  | nil => rfl
  | cons c t =>
    rw [runFrom_cons, next]
    split
    next h =>
      have hne := digitRun_ne_nil h t
      have hrun : (digitRun (c :: t)).2 = (digitRun t).2 := by rw [digitRun_cons, if_pos h]
      rw [isComplete_exponent, hrun]
      simp [hne]
    next h => rw [digitRun_cons, if_neg h, isComplete_dead]; rfl

/-- After its mark an exponent may have a sign. -/
theorem isComplete_mark (t : Text) :
    (mark.runFrom t).isComplete = (sign.runFrom (Literal.sign t).2).isComplete := by
  cases t with
  | nil => rfl
  | cons c t =>
    rw [Literal.sign]
    by_cases hs : c = '-' ∨ c = '+'
    · have hc : isDecimal c = false := by rcases hs with rfl | rfl <;> decide
      have hrest : (if c = '-' then (true, t) else if c = '+' then (false, t)
          else (false, c :: t)).2 = t := by
        rcases hs with rfl | rfl <;> rfl
      rw [hrest, runFrom_cons, next, hc, if_neg Bool.false_ne_true, if_pos hs]
    · rw [not_or] at hs
      rw [if_neg hs.1, if_neg hs.2, runFrom_cons, runFrom_cons, next, next]
      simp [hs]

/-- What may follow a mantissa is an exponent. -/
theorem isComplete_closeMantissa (c : Char) (t : Text) :
    ((closeMantissa c).runFrom t).isComplete = (exponent? (c :: t)).isSome := by
  rw [closeMantissa, exponent?_cons]
  split
  next =>
    rw [isComplete_mark, isComplete_sign]
    obtain ⟨digits, rest⟩ := digitRun (Literal.sign t).2
    cases digits <;> cases rest <;> rfl
  next => rw [isComplete_close]; rfl

/-- After the point a mantissa goes on with digits, and an exponent may follow. -/
theorem isComplete_fraction (t : Text) :
    (fraction.runFrom t).isComplete = (exponent? (digitRun t).2).isSome := by
  induction t with
  | nil => rfl
  | cons c t ih =>
    rw [runFrom_cons, next, digitRun_cons]
    split
    · exact ih
    · exact isComplete_closeMantissa c t

/-- What is read of a mantissa whose digits before the point are known to be some. -/
theorem isComplete_whole (t : Text) :
    (whole.runFrom t).isComplete =
      match (digitRun t).2 with
      | [] => true
      | c :: u =>
        if c = '.' then (fraction.runFrom u).isComplete else (exponent? (c :: u)).isSome := by
  induction t with
  | nil => rfl
  | cons c t ih =>
    rw [runFrom_cons, next, digitRun_cons]
    split
    · exact ih
    · dsimp only
      split
      · rfl
      · exact isComplete_closeMantissa c t

/-- Without a digit before it, a point needs one after it. -/
theorem isComplete_point (t : Text) :
    (point.runFrom t).isComplete = ((digitRun t).1 != [] && (exponent? (digitRun t).2).isSome) := by
  cases t with
  | nil => rfl
  | cons c t =>
    rw [runFrom_cons, next]
    split
    next h =>
      have hne := digitRun_ne_nil h t
      have hrun : (digitRun (c :: t)).2 = (digitRun t).2 := by rw [digitRun_cons, if_pos h]
      rw [isComplete_fraction, hrun]
      simp [hne]
    next h => rw [digitRun_cons, if_neg h, isComplete_dead]; rfl

/-- Whether a text without sign is a mantissa with an exponent. -/
def isUnsigned (t : Text) : Bool := (mantissa? t).any fun (_, _, rest) => (exponent? rest).isSome

/-- A mantissa begins with a digit or a point. -/
theorem isUnsigned_cons (c : Char) (t : Text) :
    isUnsigned (c :: t) =
      if isDecimal c then (whole.runFrom t).isComplete
      else if c = '.' then (point.runFrom t).isComplete
      else false := by
  rw [isUnsigned, mantissa?]
  by_cases hc : isDecimal c = true
  · have hne := digitRun_ne_nil hc t
    have hrun : (digitRun (c :: t)).2 = (digitRun t).2 := by rw [digitRun_cons, if_pos hc]
    rw [if_pos hc, isComplete_whole, ← hrun]
    clear hrun
    revert hne
    obtain ⟨digits, rest⟩ := digitRun (c :: t)
    intro hne
    -- After the first digits the mantissa ends, or a point or something else follows them.
    cases rest with
    | nil => simp_all [exponent?]
    | cons d rest => by_cases hd : d = '.' <;> simp_all [isComplete_fraction]
  · rw [if_neg hc, digitRun_cons, if_neg hc]
    by_cases hd : c = '.'
    · rw [if_pos hd, isComplete_point]
      cases h : (digitRun t).1 <;> simp [h, hd]
    · simp [hd]

/-! ## Names -/

/-- After its first letter, a name is read on to its end. -/
theorem isComplete_n (t : Text) : (n.runFrom t).isComplete = decide (t = ['a', 'n']) := by
  match t with
  | [] => rfl
  | [c] => by_cases hc : c = 'a' <;> simp [next, isComplete, hc]
  | [c, d] => by_cases hc : c = 'a' <;> by_cases hd : d = 'n' <;> simp [next, isComplete, hc, hd]
  | c :: d :: e :: t =>
    by_cases hc : c = 'a' <;> by_cases hd : d = 'n' <;>
      simp [next, hc, hd, isComplete_dead, isComplete_close]

/-- After its first letter, a name is read on to its end. -/
theorem isComplete_i (t : Text) : (i.runFrom t).isComplete = decide (t = ['n', 'f']) := by
  match t with
  | [] => rfl
  | [c] => by_cases hc : c = 'n' <;> simp [next, isComplete, hc]
  | [c, d] => by_cases hc : c = 'n' <;> by_cases hd : d = 'f' <;> simp [next, isComplete, hc, hd]
  | c :: d :: e :: t =>
    by_cases hc : c = 'n' <;> by_cases hd : d = 'f' <;>
      simp [next, hc, hd, isComplete_dead, isComplete_close]

/-! ## Literals -/

/-- After a minus there is a number without sign or an infinity. -/
theorem isComplete_minus (t : Text) :
    (minus.runFrom t).isComplete = (decide (t = ['i', 'n', 'f']) || isUnsigned t) := by
  cases t with
  | nil => rfl
  | cons c t =>
    rw [runFrom_cons, next, isUnsigned_cons]
    by_cases hc : isDecimal c = true
    · have : c ≠ 'i' := by rintro rfl; exact absurd hc (by decide)
      simp [hc, this]
    · by_cases hp : c = '.'
      · simp [hp, show isDecimal '.' = false by decide]
      · by_cases hi : c = 'i'
        · simp [hi, isComplete_i, show isDecimal 'i' = false by decide]
        · simp [hc, hp, hi, isComplete_dead]

/-- The automaton reads a text without line end as a name of a number or a decimal number. -/
theorem isComplete_start (t : Text) :
    (start.runFrom t).isComplete = (names.contains t || (parseDecimal? t).isSome) := by
  have hdecimal : (parseDecimal? t).isSome = isUnsigned (Literal.minus t).2 := by
    rw [parseDecimal?, isUnsigned]
    dsimp only
    cases mantissa? (Literal.minus t).2 <;> simp
  rw [hdecimal]
  cases t with
  | nil => rfl
  | cons c t =>
    rw [runFrom_cons, next, Literal.minus]
    by_cases hm : c = '-'
    · simp [hm, show isDecimal '-' = false by decide, isComplete_minus, names]
    rw [if_neg hm, if_neg hm, isUnsigned_cons]
    by_cases hc : isDecimal c = true
    · have hn : c ≠ 'n' := by rintro rfl; exact absurd hc (by decide)
      have hi : c ≠ 'i' := by rintro rfl; exact absurd hc (by decide)
      simp [hc, hm, hn, hi, names]
    by_cases hp : c = '.'
    · simp [hp, show isDecimal '.' = false by decide, names]
    by_cases hn : c = 'n'
    · simp [hn, show isDecimal 'n' = false by decide, isComplete_n, names]
    by_cases hi : c = 'i'
    · simp [hi, show isDecimal 'i' = false by decide, isComplete_i, names]
    · simp [hc, hp, hn, hi, hm, isComplete_dead, names]

/-- Where the end of a line stands, a complete literal is accepted with it. -/
theorem accepts_next_lineEnd (q : State) : (q.next '\n').accepts = q.isComplete := by
  cases q <;> rfl

/-- What ends the line is a line end. -/
theorem next_ne_ended {q : State} {c : Char} (hc : c ≠ '\n') : q.next c ≠ ended := by
  cases q <;> simp only [next, closeMantissa, close, if_neg hc] <;> repeat' split
  all_goals exact fun h => State.noConfusion h

/-- The automaton accepts exactly the literals. -/
theorem isSome_parse? (t : Text) : (parse? t).isSome = (start.runFrom t).accepts := by
  have hdropped : (parse? t).isSome = (start.runFrom (dropLineEnd t)).isComplete := by
    rw [isComplete_start, parse?]
    generalize dropLineEnd t = u
    by_cases h1 : u = ['n', 'a', 'n']
    · simp [h1, names]
    by_cases h2 : u = ['i', 'n', 'f']
    · simp [h2, names]
    by_cases h3 : u = ['-', 'i', 'n', 'f']
    · simp [h3, names]
    · simp [h1, h2, h3, names]
  rw [hdropped, dropLineEnd]
  -- The automaton takes a line end like any other character, so the last one is looked at apart.
  rcases List.eq_nil_or_concat' t with rfl | ⟨u, c, rfl⟩
  · rfl
  rw [List.getLast?_concat, List.dropLast_concat]
  by_cases hc : c = '\n'
  · rw [if_pos (by rw [hc]), runFrom_append, hc]
    exact (accepts_next_lineEnd _).symm
  · rw [if_neg (by simpa using hc), runFrom_append, runFrom_cons, runFrom_nil, accepts,
      beq_false_of_ne (next_ne_ended hc), Bool.or_false]

/-! ## Numerals -/

/-- What has been read after digits. -/
def digits : State → State
  | start | minus | whole => whole
  | point | fraction => fraction
  | mark | sign | exponent => exponent
  | _ => dead

/-- Whether what has been read goes on into a numeral, so that a minus before the numeral counts. -/
def isOpen : State → Bool
  | minus | whole | point | fraction => true
  | _ => false

/-- The states after digits depend on no digit. -/
theorem runFrom_digits {t : Text} (ht : IsDigits t) (q : State) : q.runFrom t = q.digits := by
  have hnext (q : State) {c : Char} (hc : isAsciiDigit c = true) : q.next c = q.digits := by
    have hdecimal : isDecimal c = true := by rw [isDecimal, digitValue?_eq hc]; rfl
    have hletter (d : Char) (hd : isAsciiDigit d = false) : c ≠ d := by
      rintro rfl
      rw [hc] at hd
      cases hd
    cases q <;>
      simp [next, digits, close, hdecimal, hletter 'a' (by decide), hletter 'n' (by decide),
        hletter 'f' (by decide), hletter '\n' (by decide)]
  -- From the second digit on the state stays as it is.
  have hdigits (q : State) : q.digits.digits = q.digits := by cases q <;> rfl
  obtain ⟨hne, hall⟩ := ht
  induction t generalizing q with
  | nil => exact absurd rfl hne
  | cons c t ih =>
    rw [runFrom_cons, hnext q (hall c List.mem_cons_self)]
    cases t with
    | nil => rfl
    | cons d t =>
      rw [ih q.digits (List.cons_ne_nil _ _) fun c hc => hall c (List.mem_cons_of_mem _ hc),
        hdigits]

/-- Numerals with digits on both sides of a point lead to the same state. -/
theorem runFrom_numeral {whole fraction : Text} (hw : IsDigits whole) (hf : IsDigits fraction)
    (q : State) : q.runFrom (whole ++ '.' :: fraction) = (q.digits.next '.').digits := by
  rw [runFrom_append, runFrom_digits hw, runFrom_cons, runFrom_digits hf]

/-- Unless what has been read goes on into a numeral, a minus before the numeral makes no
difference. -/
theorem runFrom_signed {whole fraction : Text} (hw : IsDigits whole) (hf : IsDigits fraction)
    {q : State} (hq : q.isOpen = false) (s : Bool) :
    q.runFrom (signed s (whole ++ '.' :: fraction)) = (q.digits.next '.').digits := by
  cases s with
  | false => exact runFrom_numeral hw hf q
  | true =>
    rw [signed, if_pos rfl, runFrom_cons, runFrom_numeral hw hf]
    -- Only the states that are not open are left, and none of them is changed by a minus alone.
    cases q <;> first | rfl | cases hq

end State

end Literal

/-- The texts that are read as numbers are those that the automaton accepts. -/
theorem exists_readNumber_iff {t : Text} :
    (∃ x, readNumber t = .ok x) ↔ (Literal.State.start.runFrom t).accepts = true := by
  rw [← Literal.State.isSome_parse?, readNumber]
  cases Literal.parse? t with
  | none =>
    refine ⟨?_, fun h => by cases h⟩
    rintro ⟨x, hx⟩
    dsimp only at hx
    split at hx <;> cases hx
  | some l => exact ⟨fun _ => rfl, fun _ => ⟨l.toFloat, rfl⟩⟩

end FormulaPlot
