import FormulaPlot.Formula.Group
import FormulaPlot.Formula.Literal
import FormulaPlot.Formula.NumberText
import FormulaPlot.Formula.Operand
import FormulaPlot.Formula.Step

/-!
# Reduction of a text to a number

The engine builds no tree. It rewrites the text until one number is left:

* unary pluses are dropped;
* calls and then plain groups give way to their values, which a reduction of their insides gives;
* minuses of subtraction get a symbol of their own;
* operators give way to their values, one kind after the other and each from left to right;
* minuses that meet are dropped in pairs, and what is left is read as a number.

Every rewriting takes something away for good: a call or group its parenthesis, and an operator its
symbol. The text of a number holds neither (`openings_plainText`, `count_symbol_plainText`), so the
number of these bounds the run.
-/

namespace FormulaPlot

/-- Dropping unary pluses drops no parenthesis. -/
theorem openings_dropUnaryPlus (t : Text) : openings (dropUnaryPlus t) = openings t := by
  have after (t : Text) (p : Option Char) : openings (dropUnaryPlusAfter p t) = openings t := by
    induction t generalizing p with
    | nil => rfl
    | cons c t ih =>
      simp only [dropUnaryPlusAfter]
      split
      next h => rw [ih, h.1]; simp [openings]
      next => simp only [openings, List.count_cons] at ih ⊢; rw [ih]
  exact after t none

/-- A call or group and its surroundings have one parenthesis more than its inside and its
surroundings. -/
theorem openings_of_split {k : Redex} {t before rest inner after : Text}
    (h : k.split? t = some (before, rest)) (hg : splitGroup rest = .ok (inner, after)) :
    openings before + openings inner + openings after + 1 ≤ openings t := by
  have ht : ∃ word, t = before ++ word ++ rest := by
    cases k with
    | call f => exact ⟨f.symbol, eq_of_splitAt? h⟩
    | group =>
      obtain ⟨⟨b, a⟩, hb, he⟩ := Option.map_eq_some_iff.1 h
      cases he
      exact ⟨[], by simp [(eq_of_splitAtChar? hb).1]⟩
  obtain ⟨word, rfl⟩ := ht
  simp only [eq_of_splitGroup hg, openings, List.count_append, List.count_cons]
  simp
  omega

/-- Applies every operator of a kind, the first one first. -/
def applyOperator (o : Operator) (t : Text) : Run Text :=
  match _h : splitAtChar? o.symbol t with
  | none => pure t
  | some (before, after) => do
    let left := operandBefore before
    let right := operandAfter after
    let a ← Noted.ofExcept (readNumber left)
    let b ← Noted.ofExcept (readNumber right)
    let result := plainText (o.apply a b)
    Noted.note (.applied left o right result)
    applyOperator o (beforeOperand before ++ result ++ afterOperand after)
termination_by t.count o.symbol
decreasing_by
  have hb := congrArg (List.count o.symbol) (beforeOperand_append_operandBefore before)
  have ha := congrArg (List.count o.symbol) (operandAfter_append_afterOperand after)
  simp only [List.count_append] at hb ha
  rw [(eq_of_splitAtChar? _h).1]
  simp only [List.count_append, List.count_cons_self, count_symbol_plainText]
  omega

/-- Without an operator of the kind nothing is applied. -/
theorem applyOperator_of_none {o : Operator} {t : Text} (h : splitAtChar? o.symbol t = none) :
    applyOperator o t = pure t := by
  rw [applyOperator]
  split
  · rfl
  · simp_all

/-- The first operator of the kind is applied to the operands next to it, the left one first. -/
theorem applyOperator_of_some {o : Operator} {t before after : Text}
    (h : splitAtChar? o.symbol t = some (before, after)) :
    applyOperator o t = (do
      let a ← Noted.ofExcept (readNumber (operandBefore before))
      let b ← Noted.ofExcept (readNumber (operandAfter after))
      Noted.note
        (.applied (operandBefore before) o (operandAfter after) (plainText (o.apply a b)))
      applyOperator o
        (beforeOperand before ++ plainText (o.apply a b) ++ afterOperand after)) := by
  rw [applyOperator]
  split
  · simp_all
  · next h' =>
    rw [h] at h'
    cases h'
    rfl

/-- Applies the operators of several kinds, one kind after the other. -/
def applyOperators : List Operator → Text → Run Text
  | [], t => pure t
  | o :: os, t => do
    let t ← applyOperator o t
    applyOperators os t

mutual

/-- The value of a text whose variable has its value already, `depth` levels inside others. -/
def reduce (limit depth : Int) (t : Text) : Run Float := do
  Noted.note .enter
  if limit < depth then Noted.fail (.tooDeep limit)
  else do
    -- Calls and groups take their parentheses with them, so minuses are marked after them, between
    -- numbers only.
    Noted.note (.reducing (dropUnaryPlus t))
    let t ← resolve limit depth Redex.all (dropUnaryPlus t)
    let t ← applyOperators Operator.all (markBinaryMinus t)
    let t := cancelMinusPairs t
    Noted.note (.returning t)
    Noted.ofExcept (readNumber t)
termination_by openings t * 16 + 15
decreasing_by
  rw [openings_dropUnaryPlus]
  have : Redex.all.length = 12 := rfl
  omega

/-- Replaces every call and group of the given kinds by its value, one kind after the other and the
first of a kind first. -/
def resolve (limit depth : Int) (kinds : List Redex) (t : Text) : Run Text :=
  match kinds with
  | [] => pure t
  | k :: ks =>
    match _h : k.split? t with
    | none => resolve limit depth ks t
    | some (before, rest) =>
      match _hg : splitGroup rest with
      | .error e => Noted.fail e
      | .ok (inner, after) => do
        let v ← reduce limit (depth + 1) inner
        let result := plainText (k.apply v)
        Noted.note (.replaced k inner result)
        -- The same kind again, as it may stand in what follows.
        resolve limit depth (k :: ks) (before ++ result ++ after)
termination_by openings t * 16 + kinds.length
decreasing_by
  · simp
  · have := openings_of_split _h _hg
    omega
  · have := openings_of_split _h _hg
    have := openings_plainText (k.apply v)
    simp only [openings, List.count_append] at *
    omega

end

/-- Without a call or group of a kind the other kinds are resolved. -/
theorem resolve_of_none {limit depth : Int} {k : Redex} {ks : List Redex} {t : Text}
    (h : k.split? t = none) : resolve limit depth (k :: ks) t = resolve limit depth ks t := by
  rw [resolve]
  split
  · rfl
  · simp_all

/-- A name without a group, or a group that stays open, ends the run. -/
theorem resolve_of_error {limit depth : Int} {k : Redex} {ks : List Redex} {t before rest : Text}
    {e : EvalError} (h : k.split? t = some (before, rest)) (hg : splitGroup rest = .error e) :
    resolve limit depth (k :: ks) t = Noted.fail e := by
  rw [resolve]
  split
  · simp_all
  · next h' =>
    rw [h] at h'
    cases h'
    split
    · next hg' =>
      rw [hg] at hg'
      cases hg'
      rfl
    · simp_all

/-- The first call or group of a kind is replaced by its value. -/
theorem resolve_of_ok {limit depth : Int} {k : Redex} {ks : List Redex}
    {t before rest inner after : Text} (h : k.split? t = some (before, rest))
    (hg : splitGroup rest = .ok (inner, after)) :
    resolve limit depth (k :: ks) t = (do
      let v ← reduce limit (depth + 1) inner
      Noted.note (.replaced k inner (plainText (k.apply v)))
      resolve limit depth (k :: ks) (before ++ plainText (k.apply v) ++ after)) := by
  rw [resolve]
  split
  · simp_all
  · next h' =>
    rw [h] at h'
    cases h'
    split
    · simp_all
    · next hg' =>
      rw [hg] at hg'
      cases hg'
      rfl

end FormulaPlot
