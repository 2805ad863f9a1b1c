import FormulaPlot.Proofs.Expression.Meaning

/-!
# Expressions of numbers

The engine evaluates expressions of number literals by the documented order of operators
(`reduce_number_text`): it gives the value of the tree, and fails exactly if the tree has none, as
an operand of an operator is infinite or NaN.

One thing in a text hides the tree: after a hyphen that subtracts, a number that begins with a minus
makes a pair of minuses. Such a number is the value of a call or group, as the literals of the
grammar have no sign there. `Expression.Readable` excludes both.
-/

namespace FormulaPlot

/-- A literal without sign: digits, and perhaps a point and more digits. -/
structure Numeral where
  whole : Text
  fraction : Option Text
  isDigits_whole : IsDigits whole
  isDigits_fraction : ∀ f ∈ fraction, IsDigits f

namespace Numeral

/-- The text of a literal. -/
def text (n : Numeral) : Text :=
  match n.fraction with
  | none => n.whole
  | some f => n.whole ++ '.' :: f

/-- The decimal that a literal writes. -/
def decimal (n : Numeral) : Decimal :=
  match n.fraction with
  | none => ⟨Nat.ofDigitChars 10 n.whole 0, 0⟩
  | some f => ⟨Nat.ofDigitChars 10 (n.whole ++ f) 0, -f.length⟩

/-- The double nearest to a literal with a sign. -/
def value (n : Numeral) (negative : Bool) : Float := n.decimal.toFloat negative

/-- A literal is an unsigned number. -/
theorem isUnsigned_text (n : Numeral) : IsUnsigned n.text := by
  obtain ⟨whole, fraction, hw, hf⟩ := n
  cases fraction with
  | none => exact .whole hw
  | some f => exact .point hw (hf f rfl)

/-- A literal with a sign is read as the nearest double. -/
theorem readNumber_text (n : Numeral) (negative : Bool) :
    readNumber (signed negative n.text) = .ok (n.value negative) := by
  obtain ⟨whole, fraction, hw, hf⟩ := n
  cases fraction with
  | none => exact readNumber_whole hw negative
  | some f => exact readNumber_point hw (hf f rfl) negative

/-- A literal with a sign as an operand. -/
def operand (n : Numeral) (negative : Bool) : Operand where
  text := signed negative n.text
  value := n.value negative
  plain := true
  read := n.readNumber_text negative
  shape := .inl ⟨rfl, negative, n.text, n.isUnsigned_text, rfl⟩

end Numeral

/-- A literal for a finite double, perhaps with a minus. -/
structure Number where
  negative : Bool
  numeral : Numeral
  finite : isFinite (numeral.value negative) = true

namespace Number

/-- The text of a number. -/
def text (n : Number) : Text := signed n.negative n.numeral.text

/-- The double of a number. -/
def value (n : Number) : Float := n.numeral.value n.negative

/-- A number as an operand. -/
def operand (n : Number) : Operand := n.numeral.operand n.negative

end Number

/-- What stands for an atom when its value is known: the text of a literal, and the text of the
value of a call or group. -/
def Atom.shown? : Atom Number → Option Text
  | .leaf n => some n.text
  | .call k e => ((Atom.call k e).value? (inOrder Operator.combine?) Number.value).map plainText

/-- The first atom of an expression. -/
def Expression.first {ν : Type} : Expression ν → Atom ν
  | .single a => a
  | .join a _ _ => a

mutual

/-- The expression in an atom is readable. -/
def Atom.Readable : Atom Number → Prop
  | .leaf _ => True
  | .call _ e => e.Readable

/-- What follows a hyphen is not shown with a minus, here and in all calls and groups. -/
def Expression.Readable : Expression Number → Prop
  | .single a => a.Readable
  | .join a j rest => a.Readable ∧ rest.Readable ∧
    (j = .hyphen → ∀ t ∈ rest.first.shown?, t.head? ≠ some '-')

end

/-- The values of operands with the operators that their joints mean. -/
def Operand.values (p : Operand × List (Joint × Operand)) : Float × List (Operator × Float) :=
  (p.1.value, (meant p.2).map fun x => (x.1, x.2.value))

/-- Sound operands that are written readably have the value of their levels. -/
theorem Operand.finish_eq_inOrder {ν : Type} (e : Expression ν)
    {p : Operand × List (Joint × Operand)} (ha : Sound p.1)
    (hrest : ∀ x ∈ p.2, Sound x.2)
    (hhyphen : ∀ x ∈ p.2, x.1 = .hyphen → x.2.text.head? ≠ some '-') :
    finish (written p.1 p.2) = inOrder Operator.combine? e (values p) := by
  have hsound : ∀ x ∈ meant p.2, Sound x.2 := by
    intro x hx
    obtain ⟨y, hy, rfl⟩ := List.mem_map.1 hx
    exact hrest y hy
  rw [finish_written hhyphen, inOrder, values, levels_value Operator.all ha hsound, Option.map_map]
  rfl

/-- A finite literal is a sound operand. -/
theorem Number.sound_operand (n : Number) : n.operand.Sound := n.finite.symm

/-- A double is a sound operand. -/
theorem Operand.sound_ofFloat (x : Float) : (ofFloat x).Sound := rfl

mutual

/-- An atom has the same value as an operand and as a tree. -/
theorem Atom.operand?_spec :
    (a : Atom Number) → a.Readable →
      (a.operand? Number.operand).map Operand.value =
        a.value? (inOrder Operator.combine?) Number.value ∧
      ∀ b, a.operand? Number.operand = some b → b.Sound ∧ a.shown? = some b.text
  | .leaf n => fun _ => by
    refine ⟨rfl, fun b hb => ?_⟩
    cases hb
    exact ⟨n.sound_operand, rfl⟩
  | .call k e => fun h => by
    -- The value of the expression in the call is that of its operands, by the induction.
    have he := Expression.finish_eq_value? e h
    have hcall : (Atom.call k e).operand? Number.operand =
        ((e.value? (inOrder Operator.combine?) Number.value).map k.apply).map Operand.ofFloat := by
      rw [Atom.operand?, he, Option.map_map]
      rfl
    have hval : (Atom.call k e).value? (inOrder Operator.combine?) Number.value =
        (e.value? (inOrder Operator.combine?) Number.value).map k.apply := rfl
    refine ⟨?_, fun b hb => ?_⟩
    · rw [hcall, hval, Option.map_map]
      exact Option.map_id'
    · rw [hcall] at hb
      obtain ⟨v, hv, rfl⟩ := Option.map_eq_some_iff.1 hb
      refine ⟨Operand.sound_ofFloat v, ?_⟩
      rw [Atom.shown?, hval, hv]
      rfl

/-- An expression has the same operands as a text and as a tree. -/
theorem Expression.operands?_spec :
    (e : Expression Number) → e.Readable →
      (e.operands? Number.operand).map Operand.values =
        e.parts? (inOrder Operator.combine?) Number.value ∧
      ∀ p, e.operands? Number.operand = some p → p.1.Sound ∧ (∀ x ∈ p.2, x.2.Sound) ∧
        (∀ x ∈ p.2, x.1 = .hyphen → x.2.text.head? ≠ some '-') ∧
        e.first.shown? = some p.1.text
  | .single a => fun h => by
    obtain ⟨hval, hsound⟩ := Atom.operand?_spec a h
    refine ⟨?_, fun p hp => ?_⟩
    · rw [Expression.operands?, Expression.parts?, ← hval, Option.map_map, Option.map_map]
      rfl
    · obtain ⟨b, hb, rfl⟩ := Option.map_eq_some_iff.1 hp
      exact ⟨(hsound b hb).1, by simp, by simp, (hsound b hb).2⟩
  | .join a j rest => fun h => by
    obtain ⟨ha, hrest, hj⟩ := h
    obtain ⟨hval, hsound⟩ := Atom.operand?_spec a ha
    obtain ⟨hvals, hsounds⟩ := Expression.operands?_spec rest hrest
    refine ⟨?_, fun p hp => ?_⟩
    · rw [Expression.operands?, Expression.parts?, ← hval, ← hvals, Option.map_bind,
        Option.bind_map]
      congr 1
      funext b
      simp only [Function.comp_apply, Option.map_map]
      rfl
    · obtain ⟨b, hb, hp⟩ := Option.bind_eq_some_iff.1 hp
      obtain ⟨q, hq, rfl⟩ := Option.map_eq_some_iff.1 hp
      -- What follows the hyphen is shown as its first atom, which has no minus.
      obtain ⟨hq1, hq2, hq3, hfirst⟩ := hsounds q hq
      exact ⟨(hsound b hb).1, List.forall_mem_cons.2 ⟨hq1, hq2⟩,
        List.forall_mem_cons.2 ⟨fun h => hj h _ hfirst, hq3⟩, (hsound b hb).2⟩

/-- An expression has the same value as a text and as a tree. -/
theorem Expression.finish_eq_value? :
    (e : Expression Number) → e.Readable →
      ((e.operands? Number.operand).bind fun p => finish (Operand.written p.1 p.2)) =
        e.value? (inOrder Operator.combine?) Number.value
  | e => fun h => by
    obtain ⟨hvals, hsound⟩ := Expression.operands?_spec e h
    rw [Expression.value?, ← hvals, Option.bind_map]
    cases hp : e.operands? Number.operand with
    | none => rfl
    | some p =>
      obtain ⟨h1, h2, h3, -⟩ := hsound p hp
      exact Operand.finish_eq_inOrder e h1 h2 h3

end

/-- The engine reduces the text of a readable expression that is not nested too deep to the value of
the expression, and fails exactly if the expression has none. -/
theorem reduce_number_text {limit : Int} (e : Expression Number) (hdepth : (e.depth : Int) ≤ limit)
    (h : e.Readable) :
    (∀ w, (reduce limit 0 (e.text Number.text)).outcome = .ok w ↔
      e.value? (inOrder Operator.combine?) Number.value = some w) ∧
    ((∃ err, (reduce limit 0 (e.text Number.text)).outcome = .error err) ↔
      e.value? (inOrder Operator.combine?) Number.value = none) := by
  have hvalue : (reduce limit 0 (e.text Number.text)).outcome.toOption =
      e.value? (inOrder Operator.combine?) Number.value := by
    rw [← Expression.finish_eq_value? e h]
    -- A literal is always plain, so each leaf is one for the engine.
    have hplain (n : Number) : n.operand.plain = true := rfl
    exact Expression.toOption_reduce_text hplain e (by simpa using hdepth)
  rw [← hvalue]
  cases (reduce limit 0 (e.text Number.text)).outcome with
  | ok v => simp [Except.toOption]
  | error err => simp [Except.toOption]

/-- An expression in which the documented order shows: the sum is subtracted and the product
divides. -/
theorem reduce_number_text_order :
    ∃ e : Expression Number, e.text Number.text = "6/2*(1-2+3)".toList ∧
      (e.depth : Int) ≤ 64 ∧ e.Readable ∧
      (reduce 64 0 (e.text Number.text)).outcome = .ok (Float.ofBits 0xBFE8000000000000) := by
  let digit (c : Char) (hc : isAsciiDigit c = true)
      (hf : isFinite (Decimal.toFloat false ⟨Nat.ofDigitChars 10 [c] 0, 0⟩) = true) : Atom Number :=
    .leaf ⟨false, ⟨[c], none, isDigits_singleton hc, by simp⟩, hf⟩
  let e : Expression Number :=
    .join (digit '6' rfl (by decide +kernel)) (.operator .divide)
      (.join (digit '2' rfl (by decide +kernel)) (.operator .multiply)
        (.single (.call .group (.join (digit '1' rfl (by decide +kernel)) .hyphen
          (.join (digit '2' rfl (by decide +kernel)) (.operator .add)
            (.single (digit '3' rfl (by decide +kernel))))))))
  have hdepth : (e.depth : Int) ≤ 64 := by decide
  have hread : e.Readable := by
    refine ⟨trivial, ⟨trivial, ⟨trivial, ⟨trivial, trivial, nofun⟩, fun _ t ht => ?_⟩, nofun⟩, nofun⟩
    cases ht
    decide
  exact ⟨e, rfl, hdepth, hread, ((reduce_number_text e hdepth hread).1 _).2 (by decide +kernel)⟩

end FormulaPlot
