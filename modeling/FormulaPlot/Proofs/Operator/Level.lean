import FormulaPlot.Proofs.Operator.Invariant

/-!
# Levels of operators

Operands joined by operators have a value by the order of the operators: `levels` applies the
operators of one kind after the other, each from left to right, and has no value as soon as an
operand of an operator is infinite or NaN.

The engine does the same on texts. A text without calls is `joined` operands, each a text that is
read as a number. An operand that is finite is all of the run of characters that the engine takes
for it, and one that is not has no such run or a lone minus, which is no number
(`readNumber_before`, `readNumber_after`). So `applyOperator` is one of the levels
(`applyOperator_joined`), and what is left at the end is read as the value
(`finish_of_markBinaryMinus`).
-/

namespace FormulaPlot

section Level

variable {α : Type} (combine : Operator → α → α → Option α)

/-- Applies the operators of one kind from left to right. -/
def level (o : Operator) : α → List (Operator × α) → Option (α × List (Operator × α))
  | a, [] => some (a, [])
  | a, (p, b) :: rest =>
    if p = o then (combine o a b).bind fun c => level o c rest
    else (level o b rest).map fun (c, rest') => (a, (p, c) :: rest')

/-- Applies the operators of several kinds, one kind after the other. -/
def levels : List Operator → α → List (Operator × α) → Option (α × List (Operator × α))
  | [], a, rest => some (a, rest)
  | o :: os, a, rest => (level combine o a rest).bind fun (b, rest') => levels os b rest'

variable {combine}

/-- After a level its operator is gone, and the others are as before. -/
theorem of_level_eq_some {o : Operator} {a b : α} {rest rest' : List (Operator × α)}
    (h : level combine o a rest = some (b, rest')) {p : Operator}
    (hp : p ∈ rest'.map Prod.fst) : p ≠ o ∧ p ∈ rest.map Prod.fst := by
  induction rest generalizing a b rest' with
  | nil =>
    cases h
    cases hp
  | cons x rest ih =>
    obtain ⟨q, c⟩ := x
    rw [level] at h
    split at h
    next hq =>
      obtain ⟨d, -, hd⟩ := Option.bind_eq_some_iff.1 h
      exact ⟨(ih hd hp).1, List.mem_cons_of_mem q (ih hd hp).2⟩
    next hq =>
      obtain ⟨⟨d, rest''⟩, hd, he⟩ := Option.map_eq_some_iff.1 h
      cases he
      rcases List.mem_cons.1 hp with rfl | hp
      · exact ⟨hq, List.mem_cons_self⟩
      · exact ⟨(ih hd hp).1, List.mem_cons_of_mem q (ih hd hp).2⟩

/-- After several levels their operators are gone, and the others are as before. -/
theorem of_levels_eq_some {os : List Operator} {a b : α} {rest rest' : List (Operator × α)}
    (h : levels combine os a rest = some (b, rest')) {p : Operator}
    (hp : p ∈ rest'.map Prod.fst) : p ∉ os ∧ p ∈ rest.map Prod.fst := by
  induction os generalizing a rest with
  | nil =>
    cases h
    exact ⟨List.not_mem_nil, hp⟩
  | cons o os ih =>
    obtain ⟨⟨c, rest''⟩, hc, hrest⟩ := Option.bind_eq_some_iff.1 h
    obtain ⟨hnot, hmem⟩ := ih hrest
    obtain ⟨hne, hmem⟩ := of_level_eq_some hc hmem
    exact ⟨by rw [List.mem_cons, not_or]; exact ⟨hne, hnot⟩, hmem⟩

/-- After all levels one operand is left. -/
theorem eq_nil_of_levels {a b : α} {rest rest' : List (Operator × α)}
    (h : levels combine Operator.all a rest = some (b, rest')) : rest' = [] := by
  cases rest' with
  | nil => rfl
  | cons x rest' =>
    have := (of_levels_eq_some h (p := x.1) (by simp)).1
    exact absurd (by cases x.1 <;> decide) this

/-- What holds of the operands and of the values of operators holds after a level. -/
theorem forall_of_level {P : α → Prop} (hP : ∀ o a b c, combine o a b = some c → P c)
    {o : Operator} {a b : α} {rest rest' : List (Operator × α)} (ha : P a)
    (hrest : ∀ x ∈ rest, P x.2) (h : level combine o a rest = some (b, rest')) :
    P b ∧ ∀ x ∈ rest', P x.2 := by
  induction rest generalizing a b rest' with
  | nil =>
    cases h
    exact ⟨ha, hrest⟩
  | cons x rest ih =>
    obtain ⟨q, c⟩ := x
    obtain ⟨hc, hrest⟩ := List.forall_mem_cons.1 hrest
    rw [level] at h
    split at h
    · obtain ⟨d, hd, h⟩ := Option.bind_eq_some_iff.1 h
      exact ih (hP _ _ _ _ hd) hrest h
    · obtain ⟨⟨d, rest''⟩, hd, he⟩ := Option.map_eq_some_iff.1 h
      cases he
      obtain ⟨hd, hrest⟩ := ih hc hrest hd
      exact ⟨ha, List.forall_mem_cons.2 ⟨hd, hrest⟩⟩

section Map

variable {β : Type} {combine' : Operator → β → β → Option β} (f : α → β)

/-- A level is the same for operands that stand for others. -/
theorem level_map {P : α → Prop} (hP : ∀ o a b c, combine o a b = some c → P c)
    (hf : ∀ o a b, P a → P b → combine' o (f a) (f b) = (combine o a b).map f) (o : Operator)
    {a : α} (ha : P a) {rest : List (Operator × α)} (hrest : ∀ x ∈ rest, P x.2) :
    level combine' o (f a) (rest.map fun x => (x.1, f x.2)) =
      (level combine o a rest).map fun (b, rest') => (f b, rest'.map fun x => (x.1, f x.2)) := by
  induction rest generalizing a with
  | nil => rfl
  | cons x rest ih =>
    obtain ⟨p, b⟩ := x
    obtain ⟨hb, hrest⟩ := List.forall_mem_cons.1 hrest
    rw [List.map_cons, level, level]
    split
    · -- The value of an operator has the property again, for the rest of the level.
      rw [hf o a b ha hb]
      cases hc : combine o a b with
      | none => rfl
      | some c => exact ih (hP _ _ _ _ hc) hrest
    · rw [ih hb hrest, Option.map_map, Option.map_map]
      rfl

/-- All levels are the same for operands that stand for others. -/
theorem levels_map {P : α → Prop} (hP : ∀ o a b c, combine o a b = some c → P c)
    (hf : ∀ o a b, P a → P b → combine' o (f a) (f b) = (combine o a b).map f)
    (os : List Operator) {a : α} (ha : P a) {rest : List (Operator × α)}
    (hrest : ∀ x ∈ rest, P x.2) :
    levels combine' os (f a) (rest.map fun x => (x.1, f x.2)) =
      (levels combine os a rest).map fun (b, rest') => (f b, rest'.map fun x => (x.1, f x.2)) := by
  induction os generalizing a rest with
  | nil => rfl
  | cons o os ih =>
    rw [levels, levels, level_map f hP hf o ha hrest]
    cases hl : level combine o a rest with
    | none => rfl
    | some x =>
      obtain ⟨hb, hrest'⟩ := forall_of_level hP ha hrest hl
      exact ih hb hrest'

/-- A level that has a value has it for operands that stand for others. -/
theorem level_of_eq_some
    (hf : ∀ o a b c, combine o a b = some c → combine' o (f a) (f b) = some (f c)) {o : Operator}
    {a b : α} {rest rest' : List (Operator × α)} (h : level combine o a rest = some (b, rest')) :
    level combine' o (f a) (rest.map fun x => (x.1, f x.2)) =
      some (f b, rest'.map fun x => (x.1, f x.2)) := by
  induction rest generalizing a b rest' with
  | nil =>
    cases h
    rfl
  | cons x rest ih =>
    obtain ⟨p, c⟩ := x
    rw [level] at h
    rw [List.map_cons, level]
    split at h
    next hp =>
      obtain ⟨d, hd, h⟩ := Option.bind_eq_some_iff.1 h
      rw [if_pos hp, hf _ _ _ _ hd]
      exact ih h
    next hp =>
      obtain ⟨⟨d, rest''⟩, hd, he⟩ := Option.map_eq_some_iff.1 h
      cases he
      rw [if_neg hp, ih hd]
      rfl

/-- Levels that have a value have it for operands that stand for others. -/
theorem levels_of_eq_some
    (hf : ∀ o a b c, combine o a b = some c → combine' o (f a) (f b) = some (f c))
    {os : List Operator} {a b : α} {rest rest' : List (Operator × α)}
    (h : levels combine os a rest = some (b, rest')) :
    levels combine' os (f a) (rest.map fun x => (x.1, f x.2)) =
      some (f b, rest'.map fun x => (x.1, f x.2)) := by
  induction os generalizing a rest with
  | nil =>
    cases h
    rfl
  | cons o os ih =>
    obtain ⟨⟨c, rest''⟩, hc, h⟩ := Option.bind_eq_some_iff.1 h
    rw [levels, level_of_eq_some f hf hc]
    exact ih h

end Map

end Level

/-- The value of an operator, unless one of its operands is infinite or NaN. -/
def Operator.combine? (o : Operator) (a b : Float) : Option Float :=
  if (isFinite a && isFinite b) = true then some (o.apply a b) else none

/-! ## Runs of operand characters -/

/-- A character beside an operand, if there is one, is none of operands. -/
def EndsRun (c : Option Char) : Prop := c.all (fun c => !isOperandChar c) = true

/-- An operand at the end of a text is all of the run that the engine takes. -/
theorem operandBefore_append {t u : Text} (ht : ∀ c ∈ t, isOperandChar c = true)
    (hu : EndsRun u.getLast?) : operandBefore (u ++ t) = t ∧ beforeOperand (u ++ t) = u := by
  have ht' : ∀ c ∈ t.reverse, isOperandChar c = true := fun c hc => ht c (List.mem_reverse.1 hc)
  have hu' : u.reverse.takeWhile isOperandChar = [] ∧ u.reverse.dropWhile isOperandChar = u.reverse := by
    rcases List.eq_nil_or_concat u with rfl | ⟨v, c, rfl⟩
    · exact ⟨rfl, rfl⟩
    · have hc : isOperandChar c = false := by simpa [EndsRun] using hu
      simp [hc]
  rw [operandBefore, beforeOperand, List.reverse_append, List.takeWhile_append_of_pos ht',
    List.dropWhile_append_of_pos ht', hu'.1, hu'.2, List.append_nil, List.reverse_reverse,
    List.reverse_reverse]
  exact ⟨rfl, rfl⟩

/-- An operand at the start of a text is all of the run that the engine takes. -/
theorem operandAfter_append {t u : Text} (ht : ∀ c ∈ t, isOperandChar c = true)
    (hu : EndsRun u.head?) : operandAfter (t ++ u) = t ∧ afterOperand (t ++ u) = u := by
  have hu' : u.takeWhile isOperandChar = [] ∧ u.dropWhile isOperandChar = u := by
    cases u with
    | nil => exact ⟨rfl, rfl⟩
    | cons c v =>
      have hc : isOperandChar c = false := by simpa [EndsRun] using hu
      simp [hc]
  rw [operandAfter, afterOperand, List.takeWhile_append_of_pos ht, List.dropWhile_append_of_pos ht,
    hu'.1, hu'.2, List.append_nil]
  exact ⟨rfl, rfl⟩

/-! ## Operands in texts -/

/-- Digits, perhaps with a point among them. -/
inductive IsUnsigned : Text → Prop where
  | whole {whole : Text} (hw : IsDigits whole) : IsUnsigned whole
  | point {whole fraction : Text} (hw : IsDigits whole) (hf : IsDigits fraction) :
    IsUnsigned (whole ++ '.' :: fraction)

/-- An unsigned number begins with a digit. -/
theorem IsUnsigned.exists_head {t : Text} (h : IsUnsigned t) :
    ∃ c u, t = c :: u ∧ isAsciiDigit c = true := by
  cases h with
  | whole hw =>
    obtain ⟨c, u, rfl⟩ := List.exists_cons_of_ne_nil hw.1
    exact ⟨c, u, rfl, hw.2 c List.mem_cons_self⟩
  | point hw hf =>
    obtain ⟨c, u, rfl⟩ := List.exists_cons_of_ne_nil hw.1
    exact ⟨c, _, rfl, hw.2 c List.mem_cons_self⟩

/-- An unsigned number ends in a digit. -/
theorem IsUnsigned.exists_last {t : Text} (h : IsUnsigned t) :
    ∃ u c, t = u ++ [c] ∧ isAsciiDigit c = true := by
  cases h with
  | whole hw =>
    exact ⟨_, _, (List.dropLast_append_getLast hw.1).symm, hw.2 _ (List.getLast_mem hw.1)⟩
  | @point whole fraction hw hf =>
    refine ⟨whole ++ '.' :: fraction.dropLast, fraction.getLast hf.1, ?_,
      hf.2 _ (List.getLast_mem hf.1)⟩
    simp [List.dropLast_append_getLast]

/-- An unsigned number is made of digits and points. -/
theorem IsUnsigned.mem {t : Text} (h : IsUnsigned t) {c : Char} (hc : c ∈ t) :
    isAsciiDigit c = true ∨ c = '.' := by
  cases h with
  | whole hw => exact .inl (hw.2 c hc)
  | point hw hf =>
    rcases List.mem_append.1 hc with hc | hc
    · exact .inl (hw.2 c hc)
    rcases List.mem_cons.1 hc with rfl | hc
    · exact .inr rfl
    · exact .inl (hf.2 c hc)

/-- An unsigned number has no minus. -/
theorem IsUnsigned.minus_notMem {t : Text} (h : IsUnsigned t) : '-' ∉ t := by
  intro hc
  rcases h.mem hc with hc | hc <;> exact absurd hc (by decide)

/-- A number as it stands in a text without calls. -/
structure Operand where
  text : Text
  value : Float
  /-- Whether the text has digits and not a name. -/
  plain : Bool
  /-- The text is read as the value. -/
  read : readNumber text = .ok value
  shape : (plain = true ∧ ∃ s body, IsUnsigned body ∧ text = signed s body) ∨
    (plain = false ∧ text ∈ Literal.names)

namespace Operand

/-- A double as an operand. -/
def ofFloat (x : Float) : Operand where
  text := plainText x
  value := x
  plain := isFinite x
  read := readNumber_plainText x
  shape := by
    unfold plainText writeFloat isFinite
    cases Shape.ofFloat x with
    | nan => exact .inr ⟨rfl, by decide⟩
    | infinite s => exact .inr ⟨rfl, by cases s <;> decide⟩
    | finite s bits =>
      obtain ⟨whole, fraction, hw, hf, htext, -⟩ := writePositional_eq (Decimal.shortest bits)
      exact .inl ⟨rfl, s, _, .point hw hf, congrArg (signed s) htext⟩

/-- Operands joined by operators, as a text. -/
def joined (a : Operand) (rest : List (Operator × Operand)) : Text :=
  a.text ++ rest.flatMap fun (p, b) => p.symbol :: b.text

/-- The value of an operator as an operand, unless one of its operands is a name. -/
def combine? (o : Operator) (a b : Operand) : Option Operand :=
  if (a.plain && b.plain) = true then some (.ofFloat (o.apply a.value b.value)) else none

/-- The text of a finite operand is made of characters of operands. -/
theorem isOperandChar {a : Operand} (ha : a.plain = true) :
    ∀ c ∈ a.text, FormulaPlot.isOperandChar c = true := by
  rcases a.shape with ⟨-, s, body, hbody, htext⟩ | ⟨hinf, -⟩
  · intro c hc
    rw [htext] at hc
    have hmem : c = '-' ∨ c ∈ body := by
      cases s
      · exact .inr hc
      · exact List.mem_cons.1 hc
    rcases hmem with rfl | hc
    · decide
    · rcases hbody.mem hc with hc | rfl
      · rw [FormulaPlot.isOperandChar, hc]
        rfl
      · decide
  · rw [ha] at hinf
    cases hinf

/-- A plain operand is a number without sign, perhaps after a minus. -/
theorem exists_signed {a : Operand} (ha : a.plain = true) :
    ∃ s body, IsUnsigned body ∧ a.text = signed s body := by
  rcases a.shape with ⟨-, h⟩ | ⟨hname, -⟩
  · exact h
  · rw [ha] at hname
    cases hname

/-- A plain operand begins with a minus or a digit. -/
theorem exists_head {a : Operand} (ha : a.plain = true) :
    ∃ c t, a.text = c :: t ∧ (c = '-' ∨ isAsciiDigit c = true) := by
  obtain ⟨s, body, hbody, htext⟩ := exists_signed ha
  obtain ⟨c, v, hhead, hc⟩ := hbody.exists_head
  cases s with
  | false => exact ⟨c, v, by rw [htext, hhead]; rfl, .inr hc⟩
  | true => exact ⟨'-', body, by rw [htext]; rfl, .inl rfl⟩

/-- A plain operand ends in a digit. -/
theorem exists_last {a : Operand} (ha : a.plain = true) :
    ∃ u d, a.text = u ++ [d] ∧ isAsciiDigit d = true := by
  obtain ⟨s, body, hbody, htext⟩ := exists_signed ha
  obtain ⟨u, d, hlast, hd⟩ := hbody.exists_last
  exact ⟨signed s u, d, by rw [htext, hlast]; cases s <;> rfl, hd⟩

/-- The text of an operand has no symbol of an operator. -/
theorem symbol_notMem (a : Operand) (o : Operator) : o.symbol ∉ a.text := by
  intro hc
  rcases a.shape with ⟨hfin, -⟩ | ⟨-, hname⟩
  · have := isOperandChar hfin _ hc
    rw [isOperandChar_symbol] at this
    cases this
  · have hall : ∀ t ∈ Literal.names, ∀ o ∈ Operator.all, o.symbol ∉ t := by decide
    exact hall _ hname o (by cases o <;> decide) hc

/-- Before an operator nothing is taken of a name, as it ends in a letter. -/
theorem operandBefore_of_name {a : Operand} (ha : a.plain = false) (u : Text) :
    operandBefore (u ++ a.text) = [] := by
  have hall : ∀ t ∈ Literal.names, ∃ v c, t = v ++ [c] ∧ FormulaPlot.isOperandChar c = false := by
    intro t ht
    refine ⟨t.dropLast, t.getLast?.getD ' ', ?_⟩
    revert t
    decide
  obtain ⟨v, c, htext, hc⟩ := hall _ (a.shape.resolve_left fun h => by simp [ha] at h).2
  rw [htext, operandBefore, ← List.append_assoc, List.reverse_append, List.reverse_singleton,
    List.singleton_append, List.takeWhile_cons_of_neg (by rw [hc]; exact Bool.false_ne_true)]
  rfl

/-- After an operator no more than its minus is taken of a name. -/
theorem operandAfter_of_name {a : Operand} (ha : a.plain = false) (u : Text) :
    operandAfter (a.text ++ u) = [] ∨ operandAfter (a.text ++ u) = ['-'] := by
  have hname := (a.shape.resolve_left fun h => by simp [ha] at h).2
  simp only [Literal.names, List.mem_cons, List.not_mem_nil, or_false] at hname
  rcases hname with h | h | h <;> rw [h]
  · exact .inl rfl
  · exact .inl rfl
  · exact .inr rfl

/-- The operand before an operator is read if it is finite. -/
theorem readNumber_before (a : Operand) {u : Text} (hu : EndsRun u.getLast?) :
    (readNumber (operandBefore (u ++ a.text))).toOption =
      if a.plain = true then some a.value else none := by
  split
  next hfin =>
    rw [(operandBefore_append (isOperandChar hfin) hu).1, a.read]
    rfl
  next hinf =>
    rw [operandBefore_of_name (Bool.eq_false_of_not_eq_true hinf)]
    rfl

/-- The operand after an operator is read if it is finite. -/
theorem readNumber_after (a : Operand) {u : Text} (hu : EndsRun u.head?) :
    (readNumber (operandAfter (a.text ++ u))).toOption =
      if a.plain = true then some a.value else none := by
  split
  next hfin =>
    rw [(operandAfter_append (isOperandChar hfin) hu).1, a.read]
    rfl
  next hinf =>
    rcases operandAfter_of_name (Bool.eq_false_of_not_eq_true hinf) u with h | h <;> rw [h] <;> rfl

/-! ## The engine's levels -/

/-- The operators after an operand begin with a symbol, if there are any. -/
theorem endsRun_tail (rest : List (Operator × Operand)) :
    EndsRun (rest.flatMap fun (p, b) => p.symbol :: b.text).head? := by
  cases rest with
  | nil => rfl
  | cons x rest =>
    have := isOperandChar_symbol x.1
    simp [EndsRun, this]

/-- A character that a text has not is searched in what follows. -/
theorem splitAtChar?_append {c : Char} {u : Text} (hu : c ∉ u) (t : Text) :
    splitAtChar? c (u ++ t) = (splitAtChar? c t).map fun (b, a) => (u ++ b, a) := by
  induction u with
  | nil => exact Option.map_id'.symm
  | cons d u ih =>
    have hd : d ≠ c := fun h => hu (h ▸ List.mem_cons_self)
    rw [List.cons_append, splitAtChar?, if_neg hd, ih fun h => hu (List.mem_cons_of_mem d h),
      Option.map_map]
    rfl

/-- The text left by an operator, if its operands are read. -/
theorem toOption_applyOperator_of_some {o : Operator} {t before after : Text}
    (h : splitAtChar? o.symbol t = some (before, after)) :
    (applyOperator o t).outcome.toOption =
      (readNumber (operandBefore before)).toOption.bind fun a =>
        (readNumber (operandAfter after)).toOption.bind fun b =>
          (applyOperator o (beforeOperand before ++ plainText (o.apply a b) ++
            afterOperand after)).outcome.toOption := by
  rw [applyOperator_of_some h]
  simp only [Noted.outcome_bind, Noted.outcome_ofExcept, Noted.outcome_note]
  cases readNumber (operandBefore before) with
  | error e => rfl
  | ok a => cases readNumber (operandAfter after) <;> rfl

/-- The first of the operators that join operands, with what is before and after it. -/
theorem splitAtChar?_joined (a b : Operand) (rest : List (Operator × Operand)) {o : Operator}
    {u : Text} (ho : o.symbol ∉ u) :
    splitAtChar? o.symbol (u ++ joined a ((o, b) :: rest)) = some (u ++ a.text, joined b rest) := by
  have htext : u ++ joined a ((o, b) :: rest) = u ++ a.text ++ (o.symbol :: joined b rest) := by
    simp [joined]
  rw [htext, splitAtChar?_append (by simp [ho, a.symbol_notMem o]), splitAtChar?, if_pos rfl]
  simp

/-- A lone operand has no operator. -/
theorem splitAtChar?_joined_nil (a : Operand) {o : Operator} {u : Text} (ho : o.symbol ∉ u) :
    splitAtChar? o.symbol (u ++ joined a []) = none := by
  rw [← List.append_nil (u ++ joined a []), splitAtChar?_append]
  · rfl
  · simp [joined, ho, a.symbol_notMem o]

/-- What is before the second operand may be seen as the beginning of the text. -/
theorem append_joined_cons (a b : Operand) (p : Operator) (rest : List (Operator × Operand))
    (u : Text) : u ++ joined a ((p, b) :: rest) = u ++ a.text ++ [p.symbol] ++ joined b rest := by
  simp [joined]

/-- Such a beginning ends the run of characters of operands, and it holds no operator of another
kind. -/
theorem append_text_symbol (a : Operand) {o p : Operator} (hop : p ≠ o) {u : Text}
    (ho : o.symbol ∉ u) :
    EndsRun (u ++ a.text ++ [p.symbol]).getLast? ∧ o.symbol ∉ u ++ a.text ++ [p.symbol] := by
  have hne : o.symbol ≠ p.symbol := fun h => hop (by cases o <;> cases p <;> first | rfl | cases h)
  exact ⟨by simp [EndsRun, isOperandChar_symbol], by simp [ho, a.symbol_notMem o, hne]⟩

/-- Applying the operators of a kind in a text is a level of its operands. What is before them holds
no operator of that kind. -/
theorem applyOperator_joined (o : Operator) (a : Operand) (rest : List (Operator × Operand))
    {u : Text} (hu : EndsRun u.getLast?) (ho : o.symbol ∉ u) :
    (applyOperator o (u ++ joined a rest)).outcome.toOption =
      (level combine? o a rest).map fun (b, rest') => u ++ joined b rest' := by
  -- What has been passed over moves into the text before, which the induction carries along.
  induction rest generalizing a u with
  | nil =>
    rw [applyOperator_of_none (splitAtChar?_joined_nil a ho)]
    rfl
  | cons x rest ih =>
    obtain ⟨p, b⟩ := x
    have htail := endsRun_tail rest
    rw [level]
    split
    next hp =>
      subst hp
      rw [toOption_applyOperator_of_some (splitAtChar?_joined a b rest ho), a.readNumber_before hu,
        joined, b.readNumber_after htail, combine?]
      -- Both operands are read or the text has no value.
      by_cases ha : a.plain = true
      · by_cases hb : b.plain = true
        · rw [if_pos ha, if_pos hb, ha, hb, (operandBefore_append (isOperandChar ha) hu).2,
            (operandAfter_append (isOperandChar hb) htail).2]
          have := ih (ofFloat (p.apply a.value b.value)) hu ho
          rw [joined, ← List.append_assoc] at this
          exact this
        · rw [if_neg hb]
          simp [hb]
      · simp [ha]
    next hp =>
      -- Another operator is passed over with its left operand.
      obtain ⟨hends, hmem⟩ := append_text_symbol a hp ho
      rw [append_joined_cons, ih b hends hmem, Option.map_map]
      congr 1
      funext x
      simp [joined]

/-- Applying all operators in a text is the levels of its operands. -/
theorem applyOperators_joined (os : List Operator) (a : Operand) (rest : List (Operator × Operand)) :
    (applyOperators os (joined a rest)).outcome.toOption =
      (levels combine? os a rest).map fun (b, rest') => joined b rest' := by
  induction os generalizing a rest with
  | nil => rfl
  | cons o os ih =>
    have := applyOperator_joined o a rest (u := []) rfl List.not_mem_nil
    rw [List.nil_append] at this
    rw [applyOperators, Noted.outcome_bind, toOption_bind, this, levels, Option.bind_map,
      Option.map_bind]
    congr 1
    funext x
    exact ih x.1 x.2

/-- What has no minus is in no pair. -/
theorem cancelMinusPairs_append {u : Text} (hu : '-' ∉ u) (t : Text) :
    cancelMinusPairs (u ++ t) = u ++ cancelMinusPairs t := by
  induction u with
  | nil => rfl
  | cons c u ih =>
    have hc : ¬ (c = '-') := fun hc => hu (hc ▸ List.mem_cons_self)
    have htail := ih fun h => hu (List.mem_cons_of_mem c h)
    rw [List.cons_append, List.cons_append, ← htail]
    -- A character that is no minus is in no pair with the next one.
    cases u ++ t with
    | nil => rfl
    | cons d w => rw [cancelMinusPairs, if_neg fun h => hc h.1]

/-- A text has no pairs of minuses if it has none after its first character. -/
theorem cancelMinusPairs_eq_self {t : Text} (h : '-' ∉ t.tail) : cancelMinusPairs t = t := by
  fun_induction cancelMinusPairs t with
  | case1 => rfl
  | case2 c => rfl
  | case3 a b t hab ih => exact absurd hab.2 fun hb => h (hb ▸ List.mem_cons_self)
  | case4 a b t hab ih => rw [ih fun ht => h (List.mem_cons_of_mem b ht)]

/-- An operand has no pairs of minuses. -/
theorem cancelMinusPairs_text (a : Operand) : cancelMinusPairs a.text = a.text := by
  rcases a.shape with ⟨-, s, body, hbody, htext⟩ | ⟨-, hname⟩
  · rw [htext]
    apply cancelMinusPairs_eq_self
    intro hmem
    cases s
    · exact hbody.minus_notMem (List.mem_of_mem_tail hmem)
    · exact hbody.minus_notMem hmem
  · have hall : ∀ t ∈ Literal.names, cancelMinusPairs t = t := by decide
    exact hall _ hname

/-- A text that is joined operands once its subtractions are marked has the value of their
levels. -/
theorem finish_of_markBinaryMinus {t : Text} {a : Operand} {rest : List (Operator × Operand)}
    (h : markBinaryMinus t = joined a rest) :
    finish t = (levels combine? Operator.all a rest).map fun x => x.1.value := by
  rw [finish, toOption_bind, h, applyOperators_joined, Option.bind_map]
  cases hl : levels combine? Operator.all a rest with
  | none => rfl
  | some x =>
    obtain ⟨b, rest'⟩ := x
    obtain rfl := eq_nil_of_levels hl
    simp [joined, cancelMinusPairs_text, b.read, Except.toOption]

/-- A name among the operands of a level stays, and so does an operator next to it. -/
theorem level_of_name {o : Operator} {a b : Operand} {rest rest' : List (Operator × Operand)}
    (h : level combine? o a rest = some (b, rest'))
    (hname : a.plain = false ∨ ∃ x ∈ rest, x.2.plain = false) :
    (b.plain = false ∨ ∃ x ∈ rest', x.2.plain = false) ∧ (rest ≠ [] → rest' ≠ []) := by
  induction rest generalizing a b rest' with
  | nil =>
    cases h
    exact ⟨hname, id⟩
  | cons x rest ih =>
    obtain ⟨p, c⟩ := x
    rw [List.exists_mem_cons_iff] at hname
    rw [level] at h
    split at h
    · obtain ⟨d, hd, h⟩ := Option.bind_eq_some_iff.1 h
      rw [combine?] at hd
      split at hd
      next hplain =>
        -- The name is neither of the two operands, so there is more.
        rw [Bool.and_eq_true] at hplain
        rw [hplain.1, hplain.2] at hname
        have hrest : ∃ x ∈ rest, x.2.plain = false := by simpa using hname
        obtain ⟨hb, hne⟩ := ih h (.inr hrest)
        exact ⟨hb, fun _ => hne (by rintro rfl; simp at hrest)⟩
      next => cases hd
    · obtain ⟨⟨d, rest''⟩, hd, he⟩ := Option.map_eq_some_iff.1 h
      cases he
      refine ⟨?_, fun _ => List.cons_ne_nil _ _⟩
      rcases hname with ha | hname
      · exact .inl ha
      · rw [List.exists_mem_cons_iff]
        exact .inr (ih hd hname).1

/-- Operators next to a name have no value. -/
theorem levels_of_name {a : Operand} {rest : List (Operator × Operand)} (hne : rest ≠ [])
    (hname : a.plain = false ∨ ∃ x ∈ rest, x.2.plain = false) :
    levels combine? Operator.all a rest = none := by
  -- Some operator stays next to the name in every level, but after all levels none is left.
  have keep {os : List Operator} {a b : Operand} {rest rest' : List (Operator × Operand)}
      (h : levels combine? os a rest = some (b, rest')) (hne : rest ≠ [])
      (hname : a.plain = false ∨ ∃ x ∈ rest, x.2.plain = false) : rest' ≠ [] := by
    induction os generalizing a rest with
    | nil =>
      cases h
      exact hne
    | cons o os ih =>
      obtain ⟨⟨c, rest''⟩, hc, h⟩ := Option.bind_eq_some_iff.1 h
      obtain ⟨hname', hne'⟩ := level_of_name hc hname
      exact ih h (hne' hne) hname'
  rw [Option.eq_none_iff_forall_ne_some]
  rintro ⟨b, rest'⟩ h
  exact keep h hne hname (eq_nil_of_levels h)

/-- An operand has digits exactly if it is finite. -/
def Sound (a : Operand) : Prop := a.plain = isFinite a.value

/-- The levels of operands are those of their values. -/
theorem levels_value (os : List Operator) {a : Operand} (ha : Sound a)
    {rest : List (Operator × Operand)} (hrest : ∀ x ∈ rest, Sound x.2) :
    levels Operator.combine? os a.value (rest.map fun x => (x.1, x.2.value)) =
      (levels combine? os a rest).map fun (b, rest') =>
        (b.value, rest'.map fun x => (x.1, x.2.value)) := by
  refine levels_map value (P := Sound) (fun o a b c h => ?_) (fun o a b ha hb => ?_) os ha hrest
  · rw [combine?] at h
    split at h <;> cases h
    rfl
  · rw [combine?, Operator.combine?, ← ha, ← hb]
    split <;> rfl

end Operand

end FormulaPlot
