import FormulaPlot.Proofs.Expression.Meaning
import FormulaPlot.Proofs.Expression.Number
import FormulaPlot.Proofs.Expression.Together
import FormulaPlot.Proofs.Formula.Evaluate

/-!
# Expressions in a variable

An expression in a variable has literals without sign and the variable as its leaves. When it is
evaluated, the text of a double takes the place of each variable (`substitute_text`), which brings
numbers with a minus next to hyphens.

`evaluate_expression` states what comes of it for every expression and every finite double: an
error, or the value of the expression by the order of operators. The one exception is a whole
sequence of digits, a hyphen and a variable, call or group with a negative value, where the engine
reads the digits of both as one number (`asRead`). `evaluate_hyphen` is a case of it.
-/

namespace FormulaPlot

/-- A leaf of an expression in the variable `x`. -/
inductive Term where
  | number (n : Numeral)
  | unknown

namespace Term

/-- The text of a leaf in a formula. -/
def text : Term → Text
  | number n => n.text
  | unknown => ['x']

/-- The value of a leaf where the variable has a value. -/
def value (v : Float) : Term → Float
  | number n => n.value false
  | unknown => v

/-- A leaf as an operand where the variable has a value. -/
def operand (v : Float) : Term → Operand
  | number n => n.operand false
  | unknown => .ofFloat v

/-- A leaf is a plain operand if the value of the variable is finite. -/
theorem plain_operand {v : Float} (hv : isFinite v = true) (n : Term) :
    (n.operand v).plain = true := by
  cases n with
  | number n => rfl
  | unknown => exact hv

end Term

/-! ## The text that is reduced -/

/-- What has no variable stays. -/
theorem substituteAfter_append {x : Char} {s u : Text} (hu : x ∉ u) (q : Option Char) (t : Text) :
    substituteAfter q x s (u ++ t) = u ++ substituteAfter (u.getLast?.or q) x s t := by
  induction u generalizing q with
  | nil => rfl
  | cons c u ih =>
    have hc : c ≠ x := fun hc => hu (hc ▸ List.mem_cons_self)
    rw [List.cons_append, substituteAfter, if_neg fun h => hc h.1,
      ih fun h => hu (List.mem_cons_of_mem c h), getLast?_cons_or]
    rfl

/-- What is not the variable is kept. -/
theorem substituteAfter_cons {x c : Char} (hc : c ≠ x) (q : Option Char) (s t : Text) :
    substituteAfter q x s (c :: t) = c :: substituteAfter (some c) x s t := by
  rw [substituteAfter, if_neg fun h => hc h.1]
  rfl

/-- A name stays, also if it has the letter of the variable in it. -/
theorem substituteAfter_word (k : Redex) (q : Option Char) (s t : Text) :
    substituteAfter q 'x' s (k.word ++ '(' :: t) =
      k.word ++ '(' :: substituteAfter (some '(') 'x' s t := by
  have hx : k = .call .exp ∨ 'x' ∉ k.word := by
    have hall : ∀ k ∈ Redex.all, k = .call .exp ∨ 'x' ∉ k.word := by decide
    exact hall k k.mem_all
  rcases hx with rfl | hx
  · -- The letter of the variable stands after another letter in this name.
    have hletter : isAsciiLetter 'e' = true := by decide
    simp [Redex.word, Builtin.symbol, Builtin.name, substituteAfter, hletter]
  · rw [substituteAfter_append hx, substituteAfter_cons (by decide)]

/-- A literal does not have the variable. -/
theorem unknown_notMem_text (n : Numeral) : 'x' ∉ n.text := by
  intro hx
  rcases n.isUnsigned_text.mem hx with h | h
  · exact absurd h (by decide)
  · cases h

/-- A joint is no letter. -/
theorem isAsciiLetter_symbol (j : Joint) : isAsciiLetter j.symbol = false := by
  cases j with
  | hyphen => decide
  | operator o => cases o <;> decide

mutual

/-- In an atom between other characters than letters the variable gives way to its value. -/
theorem Atom.substituteAfter_text (v : Float) {q : Option Char} (hq : q.any isAsciiLetter = false)
    {t : Text} (ht : t.head?.any isAsciiLetter = false) :
    (a : Atom Term) → ∃ r, substituteAfter q 'x' (plainText v) (a.text Term.text ++ t) =
      a.text (leafText (Term.operand v)) ++ substituteAfter r 'x' (plainText v) t
  | .leaf (.number n) => ⟨_, substituteAfter_append (unknown_notMem_text n) q t⟩
  | .leaf .unknown => ⟨some 'x', by
    have htext : (Atom.leaf Term.unknown).text Term.text ++ t = 'x' :: t := rfl
    rw [htext, substituteAfter, if_pos ⟨rfl, hq, ht⟩]
    rfl⟩
  | .call k e => by
    -- Parentheses are no letters, so the inside is like an expression alone.
    obtain ⟨r, h⟩ := Expression.substituteAfter_text v (q := some '(') (by decide)
      (t := ')' :: t) rfl e
    refine ⟨some ')', ?_⟩
    have hword := substituteAfter_word k q (plainText v) (e.text Term.text ++ ')' :: t)
    rw [h, substituteAfter_cons (by decide)] at hword
    simpa [Atom.text] using hword

/-- In an expression between other characters than letters the variable gives way to its value. -/
theorem Expression.substituteAfter_text (v : Float) {q : Option Char}
    (hq : q.any isAsciiLetter = false) {t : Text} (ht : t.head?.any isAsciiLetter = false) :
    (e : Expression Term) → ∃ r, substituteAfter q 'x' (plainText v) (e.text Term.text ++ t) =
      e.text (leafText (Term.operand v)) ++ substituteAfter r 'x' (plainText v) t
  | .single a => Atom.substituteAfter_text v hq ht a
  | .join a j rest => by
    have hj := isAsciiLetter_symbol j
    obtain ⟨r, ha⟩ := Atom.substituteAfter_text v hq (t := j.symbol :: (rest.text Term.text ++ t))
      (by simpa using hj) a
    obtain ⟨r', hrest⟩ := Expression.substituteAfter_text v (q := some j.symbol) (by simpa using hj)
      ht rest
    have hne : j.symbol ≠ 'x' := fun h => by
      rw [h] at hj
      exact absurd hj (by decide)
    rw [substituteAfter_cons hne, hrest] at ha
    exact ⟨r', by simpa [Expression.text] using ha⟩

end

/-- In the text of an expression the variable gives way to its value. -/
theorem Expression.substitute_text (v : Float) (e : Expression Term) :
    substitute (e.text Term.text) 'x' (plainText v) = e.text (leafText (Term.operand v)) := by
  obtain ⟨r, h⟩ := Expression.substituteAfter_text v (q := none) rfl (t := []) rfl e
  rw [List.append_nil] at h
  rw [substitute, h, substituteAfter, List.append_nil]

/-- A digit is not blank. -/
theorem isBlank_of_isAsciiDigit {c : Char} (h : isAsciiDigit c = true) : isBlank c = false := by
  simp only [isAsciiDigit, Bool.and_eq_true, decide_eq_true_eq, Char.le_def, UInt32.le_iff_toNat_le] at h
  have hlow : 48 ≤ c.toNat := h.1
  have hhigh : c.toNat ≤ 57 := h.2
  simp only [isBlank, Bool.or_eq_false_iff, Bool.and_eq_false_iff, decide_eq_false_iff_not,
    beq_eq_false_iff_ne]
  omega

/-- The characters of leaves, words and joints, and the parentheses, are not blank. -/
theorem isBlank_facts : (∀ n : Term, ∀ c ∈ n.text, isBlank c = false) ∧
    (∀ k : Redex, ∀ c ∈ k.word, isBlank c = false) ∧ ∀ j : Joint, isBlank j.symbol = false := by
  refine ⟨fun n c hc => ?_, fun k c hc => ?_, fun j => ?_⟩
  · cases n with
    | number n =>
      rcases n.isUnsigned_text.mem hc with h | rfl
      · exact isBlank_of_isAsciiDigit h
      · decide
    | unknown =>
      rw [List.mem_singleton.1 hc]
      decide
  · have hall : ∀ k ∈ Redex.all, k.word.all (fun c => !isBlank c) = true := by decide
    simpa using List.all_eq_true.1 (hall k k.mem_all) c hc
  · cases j with
    | hyphen => decide
    | operator o => cases o <;> decide

mutual

/-- An atom has no blanks. -/
theorem Atom.isBlank_text : (a : Atom Term) → ∀ c ∈ a.text Term.text, isBlank c = false
  | .leaf n => isBlank_facts.1 n
  | .call k e => by
    intro c hc
    simp only [Atom.text, List.mem_append, List.mem_cons, List.not_mem_nil, or_false] at hc
    rcases hc with hc | rfl | hc | rfl
    · exact isBlank_facts.2.1 k c hc
    · decide
    · exact Expression.isBlank_text e c hc
    · decide

/-- An expression has no blanks. -/
theorem Expression.isBlank_text : (e : Expression Term) → ∀ c ∈ e.text Term.text, isBlank c = false
  | .single a => Atom.isBlank_text a
  | .join a j rest => by
    intro c hc
    simp only [Expression.text, List.mem_append, List.mem_cons] at hc
    rcases hc with hc | rfl | hc
    · exact Atom.isBlank_text a c hc
    · exact isBlank_facts.2.2 j
    · exact Expression.isBlank_text rest c hc

end

/-- The formula of an expression in its variable. -/
def Expression.formula (e : Expression Term) : Formula :=
  ⟨String.ofList (e.text Term.text), 'x'⟩

/-- The text that is reduced, unless the formula is too long. -/
theorem Expression.prepare_formula (cfg : Settings) (e : Expression Term) (v : Float) :
    e.formula.prepare cfg (.real v) = .ok (e.text (leafText (Term.operand v))) ∨
      ∃ err, e.formula.prepare cfg (.real v) = .error err := by
  have hfilter : (e.text Term.text).filter (fun c => !isBlank c) = e.text Term.text :=
    List.filter_eq_self.2 fun c hc => by rw [e.isBlank_text c hc]; rfl
  unfold Formula.prepare formula normalize
  simp only [String.toList_ofList]
  split
  · exact .inr ⟨_, rfl⟩
  · left
    rw [hfilter]
    exact congrArg Except.ok (e.substitute_text v)

/-- A formula that has a value has it as its text. -/
theorem Expression.exists_reduce {cfg : Settings} {e : Expression Term} {v w : Float}
    (h : (e.formula.evaluate cfg (.real v)).outcome = .ok w) :
    (reduce (Formula.depthLimit cfg) 0 (e.text (leafText (Term.operand v)))).outcome.toOption =
      some w := by
  rcases e.prepare_formula cfg v with hprepare | ⟨err, hprepare⟩
  · rw [← Formula.toOption_evaluate hprepare, h]
    rfl
  · rw [Formula.evaluate_of_error hprepare] at h
    cases h

/-! ## Values -/

/-- Whether an atom is a literal. -/
def Atom.isNumber : Atom Term → Bool
  | .leaf (.number _) => true
  | _ => false

/-- The digits of a sequence that is a literal without point, a hyphen and something else than a
literal. -/
def Expression.digits? : Expression Term → Option Text
  | .join (.leaf (.number n)) .hyphen (.single a) =>
    if n.fraction = none ∧ a.isNumber = false then some n.whole else none
  | _ => none

/-- The value of a sequence of atoms by the order of the operators between their values, but for
digits, a hyphen and a finite number with a minus. These are read as one number, the digits of both
without the minuses. -/
def asRead (e : Expression Term) (p : Float × List (Operator × Float)) : Option Float :=
  match e.digits?, p with
  | some digits, (_, [(_, b)]) =>
    if isFinite b = true ∧ (plainText b).head? = some '-' then
      (readNumber (digits ++ (plainText b).tail)).toOption
    else inOrder (fun o a b => some (o.apply a b)) e p
  | _, p => inOrder (fun o a b => some (o.apply a b)) e p

/-- An operand stands for an atom: that of the literal, or else the text of a double. -/
def Atom.Renders : Atom Term → Operand → Prop
  | .leaf (.number n), b => b = n.operand false
  | _, b => ∃ x, b = .ofFloat x

/-- Operands stand for the atoms of an expression, with the same joints. -/
def Expression.Renders : Expression Term → Operand × List (Joint × Operand) → Prop
  | .single a, p => a.Renders p.1 ∧ p.2 = []
  | .join a j rest, p => a.Renders p.1 ∧ ∃ b bs, p.2 = (j, b) :: bs ∧ rest.Renders (b, bs)

/-- A literal does not begin with a minus. -/
theorem Numeral.head?_text (n : Numeral) : n.text.head? ≠ some '-' := by
  obtain ⟨c, u, htext, hc⟩ := n.isUnsigned_text.exists_head
  rw [htext]
  rintro ⟨⟩
  exact absurd hc (by decide)

/-- What stands for an atom has a point if it has a minus. -/
theorem Atom.Renders.pointed {a : Atom Term} {b : Operand} (h : a.Renders b) : b.Pointed := by
  match a, h with
  | .leaf (.number n), h =>
    intro _ hminus
    rw [show b = n.operand false from h] at hminus
    exact absurd hminus n.head?_text
  | .leaf .unknown, ⟨x, h⟩ => exact h ▸ Operand.pointed_ofFloat x
  | .call k e, ⟨x, h⟩ => exact h ▸ Operand.pointed_ofFloat x

/-- What stands for the atoms of an expression has points where there are minuses. -/
theorem Expression.Renders.pointed {e : Expression Term} {p : Operand × List (Joint × Operand)}
    (h : e.Renders p) : p.1.Pointed ∧ ∀ x ∈ p.2, x.2.Pointed := by
  match e, h with
  | .single a, ⟨ha, hnil⟩ => exact ⟨ha.pointed, by simp [hnil]⟩
  | .join a j rest, ⟨ha, b, bs, hcons, hrest⟩ =>
    obtain ⟨hb, hbs⟩ := Expression.Renders.pointed hrest
    rw [hcons]
    exact ⟨ha.pointed, List.forall_mem_cons.2 ⟨hb, hbs⟩⟩

/-- Digits alone stand for a literal without point. -/
theorem Atom.Renders.exists_number {a : Atom Term} {b : Operand} (h : a.Renders b)
    (hdigits : ∀ c ∈ b.text, isAsciiDigit c = true) :
    ∃ n, a = .leaf (.number n) ∧ n.fraction = none ∧ b.text = n.whole := by
  have hdouble (x : Float) (hb : b = .ofFloat x) : False := by
    obtain ⟨c, hc, hmark⟩ := (isNumberText_plainText x).exists_mark
    have hdigit := hdigits c (hb ▸ hc)
    rw [isAsciiDigit_of_isMark hmark] at hdigit
    cases hdigit
  match a, h with
  | .leaf (.number n), h =>
    have htext : b.text = n.text := by
      rw [show b = n.operand false from h]
      rfl
    obtain ⟨whole, fraction, hw, hf⟩ := n
    cases fraction with
    | none => exact ⟨_, rfl, rfl, htext⟩
    | some f => exact absurd (hdigits '.' (by rw [htext]; simp [Numeral.text])) (by decide)
  | .leaf .unknown, ⟨x, h⟩ => exact (hdouble x h).elim
  | .call k e, ⟨x, h⟩ => exact (hdouble x h).elim

/-- What stands for something else than a literal is the text of a double. -/
theorem Atom.Renders.exists_ofFloat {a : Atom Term} {b : Operand} (h : a.Renders b)
    (ha : a.isNumber = false) : ∃ x, b = .ofFloat x := by
  match a, h with
  | .leaf (.number n), _ => cases ha
  | .leaf .unknown, h => exact h
  | .call k e, h => exact h

/-- What stands for a literal has no minus. -/
theorem Atom.Renders.isNumber_eq {a : Atom Term} {b : Operand} (h : a.Renders b)
    (hminus : b.text.head? = some '-') : a.isNumber = false := by
  match a, h with
  | .leaf (.number n), h =>
    rw [show b = n.operand false from h] at hminus
    exact absurd hminus n.head?_text
  | .leaf .unknown, _ => rfl
  | .call k e, _ => rfl

/-- The sequences that have digits of their own. -/
theorem Expression.exists_of_digits? {e : Expression Term} {digits : Text}
    (h : e.digits? = some digits) :
    ∃ n a, e = .join (.leaf (.number n)) .hyphen (.single a) ∧ n.fraction = none ∧
      a.isNumber = false ∧ n.whole = digits := by
  unfold digits? at h
  split at h
  next n a =>
    split at h
    next hn =>
      cases h
      exact ⟨n, a, rfl, hn.1, hn.2, rfl⟩
    next => cases h
  next => cases h

/-- Where two operands run together, a sequence has the value of one number. -/
theorem Expression.Renders.asRead_of_runTogether {e : Expression Term} {a b : Operand}
    (h : e.Renders (a, [(.hyphen, b)])) (hab : Operand.RunTogether a b) :
    asRead e (Operand.values (a, [(.hyphen, b)])) =
      (readNumber (a.text ++ b.text.tail)).toOption := by
  match e, h with
  | .single _, ⟨_, hnil⟩ => cases hnil
  | .join _ _ (.join _ _ _), ⟨_, _, _, hcons, _, _, _, hcons', _⟩ =>
    cases hcons
    cases hcons'
  | .join c j (.single d), ⟨hc, y, ys, hcons, hd, hnil⟩ =>
    cases hcons
    -- The digits are those of a literal, and only the text of a double begins with a minus.
    obtain ⟨n, rfl, hn, htext⟩ := hc.exists_number hab.1
    have hnum := hd.isNumber_eq hab.2.2
    obtain ⟨x, rfl⟩ := hd.exists_ofFloat hnum
    have hdigits : (Expression.join (.leaf (.number n)) .hyphen (.single d)).digits? =
        some n.whole := if_pos ⟨hn, hnum⟩
    have hx : isFinite x = true ∧ (plainText x).head? = some '-' := hab.2
    unfold asRead
    rw [hdigits, htext]
    exact if_pos hx

/-- Elsewhere a sequence has the value of the levels of its operators. -/
theorem Expression.Renders.asRead_eq {e : Expression Term} {p : Operand × List (Joint × Operand)}
    (h : e.Renders p) (hp : ¬ ∃ b, p.2 = [(.hyphen, b)] ∧ Operand.RunTogether p.1 b) :
    asRead e (Operand.values p) = inOrder (fun o a b => some (o.apply a b)) e (Operand.values p) := by
  unfold asRead
  split
  next digits _ _ b hdigits hvalues =>
    obtain ⟨n, a, rfl, hn, hnum, rfl⟩ := Expression.exists_of_digits? hdigits
    obtain ⟨c, rest⟩ := p
    obtain ⟨hc, d, ds, rfl, hd, rfl⟩ := h
    obtain ⟨x, rfl⟩ := Atom.Renders.exists_ofFloat hd hnum
    obtain rfl : x = b := by
      have hlist := (Prod.mk.inj hvalues).2
      exact (Prod.mk.inj (List.cons.inj hlist).1).2
    -- The digits and the number with a minus would run together.
    refine if_neg fun hx => hp ⟨_, rfl, fun c hc' => ?_, hx.1, hx.2⟩
    have htext : c ∈ n.whole := by
      rw [show _ = n.operand false from hc] at hc'
      simpa [Numeral.operand, Numeral.text, hn, signed] using hc'
    exact n.isDigits_whole.2 c htext
  next => rfl

/-- What a sequence of operands is reduced to is the value of the sequence. -/
theorem Expression.Renders.asRead_of_finish {e : Expression Term}
    {p : Operand × List (Joint × Operand)} (h : e.Renders p) {w : Float}
    (hw : finish (Operand.written p.1 p.2) = some w) : asRead e (Operand.values p) = some w := by
  obtain ⟨a, rest⟩ := p
  obtain ⟨ha, hrest⟩ := h.pointed
  rcases Operand.of_finish_written ha hrest hw with ⟨b, hb, hab, hread⟩ | ⟨hno, x, hx, hw⟩
  · obtain rfl : rest = [(.hyphen, b)] := hb
    rw [h.asRead_of_runTogether hab, hread]
    rfl
  · -- The levels of the operands have a value, so those of the values have the same one.
    have hlevels : levels (fun o a b => some (o.apply a b)) Operator.all a.value
        ((Operand.meant rest).map fun x => (x.1, x.2.value)) =
        some (x.1.value, x.2.map fun x => (x.1, x.2.value)) := by
      refine levels_of_eq_some Operand.value (fun o a b c hc => ?_) hx
      rw [Operand.combine?] at hc
      split at hc
      · cases hc
        rfl
      · cases hc
    rw [h.asRead_eq hno]
    calc inOrder (fun o a b => some (o.apply a b)) e (Operand.values (a, rest))
        = (some (x.1.value, x.2.map fun x => (x.1, x.2.value))).map Prod.fst :=
          congrArg (Option.map Prod.fst) hlevels
      _ = some w := congrArg some hw

mutual

/-- What stands for an atom has its value. -/
theorem Atom.of_operand? {v : Float} : (a : Atom Term) → ∀ b, a.operand? (Term.operand v) = some b →
    a.Renders b ∧ a.value? asRead (Term.value v) = some b.value
  | .leaf (.number n) => by
    rintro b ⟨⟩
    exact ⟨rfl, rfl⟩
  | .leaf .unknown => by
    rintro b ⟨⟩
    exact ⟨⟨v, rfl⟩, rfl⟩
  | .call k e => by
    intro b hb
    obtain ⟨x, hx, rfl⟩ := Option.map_eq_some_iff.1 hb
    obtain ⟨p, hp, hfinish⟩ := Option.bind_eq_some_iff.1 hx
    obtain ⟨hrenders, hparts⟩ := Expression.of_operands? e p hp
    refine ⟨⟨k.apply x, rfl⟩, ?_⟩
    rw [Atom.value?, hparts, Option.bind_some, hrenders.asRead_of_finish hfinish]
    rfl

/-- What stands for the atoms of an expression has their values. -/
theorem Expression.of_operands? {v : Float} : (e : Expression Term) → ∀ p,
    e.operands? (Term.operand v) = some p →
    e.Renders p ∧ e.parts? asRead (Term.value v) = some (Operand.values p)
  | .single a => by
    intro p hp
    obtain ⟨b, hb, rfl⟩ := Option.map_eq_some_iff.1 hp
    obtain ⟨hrenders, hvalue⟩ := Atom.of_operand? a b hb
    refine ⟨⟨hrenders, rfl⟩, ?_⟩
    rw [Expression.parts?, hvalue]
    rfl
  | .join a j rest => by
    intro p hp
    obtain ⟨b, hb, hp⟩ := Option.bind_eq_some_iff.1 hp
    obtain ⟨q, hq, rfl⟩ := Option.map_eq_some_iff.1 hp
    obtain ⟨hrenders, hvalue⟩ := Atom.of_operand? a b hb
    obtain ⟨hrest, hparts⟩ := Expression.of_operands? rest q hq
    refine ⟨⟨hrenders, q.1, q.2, rfl, hrest⟩, ?_⟩
    rw [Expression.parts?, hvalue, hparts]
    rfl

end

/-- Evaluating the formula of an expression at a finite double fails, or gives the value of the
expression there by the order of the operators, where digits, a hyphen and a negative number that
are a whole sequence are read as one number. -/
theorem evaluate_expression (cfg : Settings) (e : Expression Term) {v : Float}
    (hv : isFinite v = true) :
    (∃ err, (e.formula.evaluate cfg (.real v)).outcome = .error err) ∨
      ∃ w, (e.formula.evaluate cfg (.real v)).outcome = .ok w ∧
        e.value? asRead (Term.value v) = some w := by
  cases h : (e.formula.evaluate cfg (.real v)).outcome with
  | error err => exact .inl ⟨err, rfl⟩
  | ok w =>
    right
    refine ⟨w, rfl, ?_⟩
    -- Only the operands matter; that no call was too deep is part of the run having a value.
    have hsome := (e.reduce_text_iff (Term.plain_operand hv) w).1 (e.exists_reduce h)
    obtain ⟨p, hp, hfinish⟩ := Option.bind_eq_some_iff.1 hsome.2.2
    obtain ⟨hrenders, hparts⟩ := e.of_operands? p hp
    rw [Expression.value?, hparts]
    exact hrenders.asRead_of_finish hfinish

/-- The difference of 5 and -3 is read as 53, where the order of the operators gives 8. -/
theorem evaluate_hyphen :
    ∃ e : Expression Term, e.text Term.text = "5-x".toList ∧
      isFinite (Float.ofBits 0xC008000000000000) = true ∧
      (e.formula.evaluate {} (.real (Float.ofBits 0xC008000000000000))).outcome =
        .ok (Float.ofBits 0x404A800000000000) ∧
      e.value? (inOrder fun o a b => some (o.apply a b))
        (Term.value (Float.ofBits 0xC008000000000000)) = some (Float.ofBits 0x4020000000000000) := by
  refine ⟨.join (.leaf (.number ⟨['5'], none, isDigits_singleton rfl, by simp⟩)) .hyphen
    (.single (.leaf .unknown)), rfl, ?_, ?_, ?_⟩
  all_goals decide +kernel

/-- The difference of -3 and 5 in a product. -/
theorem evaluate_expression_group :
    ∃ e : Expression Term, e.text Term.text = "2*(x-5)".toList ∧
      isFinite (Float.ofBits 0xC008000000000000) = true ∧
      e.value? asRead (Term.value (Float.ofBits 0xC008000000000000)) =
        some (Float.ofBits 0xC030000000000000) := by
  let digit (c : Char) (hc : isAsciiDigit c = true) : Atom Term :=
    .leaf (.number ⟨[c], none, isDigits_singleton hc, by simp⟩)
  let e : Expression Term := .join (digit '2' rfl) (.operator .multiply)
    (.single (.call .group (.join (.leaf .unknown) .hyphen (.single (digit '5' rfl)))))
  have hfinite : isFinite (Float.ofBits 0xC008000000000000) = true := by decide +kernel
  have hok : (e.formula.evaluate {} (.real (Float.ofBits 0xC008000000000000))).outcome =
      .ok (Float.ofBits 0xC030000000000000) := by decide +kernel
  refine ⟨e, rfl, hfinite, ?_⟩
  rcases evaluate_expression {} e hfinite with ⟨err, herr⟩ | ⟨w, hw, hvalue⟩
  · rw [hok] at herr
    cases herr
  · rw [hok] at hw
    cases hw
    exact hvalue

end FormulaPlot
