import FormulaPlot.Formula.Error

/-!
# Groups in parentheses

A group is a text between an opening parenthesis and the closing one that matches it. `closeGroup`
splits a text at the first closing parenthesis that is not matched within it. `groupEnd` gives the
position of the end of a group, and `unbalancedAt?` the position that a stack of open parentheses
reports.
-/

namespace FormulaPlot

/-- The number of opening parentheses of a text. -/
def openings (t : Text) : Nat := t.count '('

/-- What is before and after the closing parenthesis that ends the group `depth` levels out. -/
def closeGroup (depth : Nat) : Text → Option (Text × Text)
  | [] => none
  | c :: t =>
    if c = '(' then (closeGroup (depth + 1) t).map fun (inner, rest) => (c :: inner, rest)
    else if c = ')' then
      match depth with
      | 0 => some ([], t)
      | depth + 1 => (closeGroup depth t).map fun (inner, rest) => (c :: inner, rest)
    else (closeGroup depth t).map fun (inner, rest) => (c :: inner, rest)

/-- The inside of the group that a text must start with, and the text after the group. -/
def splitGroup : Text → Except EvalError (Text × Text)
  | [] => .error .missingGroup
  | c :: t =>
    if c = '(' then
      match closeGroup 0 t with
      | some parts => .ok parts
      | none => .error .openGroup
    else .error .missingGroup

/-- The position of the parenthesis that closes the group opened at a position. -/
def groupEnd (t : Text) (start : Nat) : Except EvalError Nat :=
  (splitGroup (t.drop start)).map fun (inner, _) => start + 1 + inner.length

/-- The position at fault in a text that starts at `position`, where the parentheses at the
positions of `stack` are open, the last one first. -/
def unbalancedFrom (position : Nat) (stack : List Nat) : Text → Option Nat
  | [] => stack.getLast?
  | c :: t =>
    if c = '(' then unbalancedFrom (position + 1) (position :: stack) t
    else if c = ')' then
      match stack with
      | [] => some position
      | _ :: stack => unbalancedFrom (position + 1) stack t
    else unbalancedFrom (position + 1) stack t

/-- The first closing parenthesis that closes nothing, or else the first opening one that stays
open. A balanced text has neither. -/
def unbalancedAt? (t : Text) : Option Nat := unbalancedFrom 0 [] t

/-- The inside of a group and the text after it make up the text with the closing parenthesis. -/
theorem eq_of_closeGroup {depth : Nat} {t inner rest : Text}
    (h : closeGroup depth t = some (inner, rest)) : t = inner ++ ')' :: rest := by
  induction t generalizing depth inner with
  | nil => simp [closeGroup] at h
  | cons c t ih =>
    simp only [closeGroup] at h
    split at h
    · obtain ⟨⟨i, r⟩, hi, he⟩ := Option.map_eq_some_iff.1 h
      cases he
      simp [ih hi]
    · split at h
      next hc =>
        cases depth with
        | zero => cases h; simp [hc]
        | succ depth =>
          obtain ⟨⟨i, r⟩, hi, he⟩ := Option.map_eq_some_iff.1 h
          cases he
          simp [ih hi]
      next =>
        obtain ⟨⟨i, r⟩, hi, he⟩ := Option.map_eq_some_iff.1 h
        cases he
        simp [ih hi]

/-- A group and the text after it make up the text. -/
theorem eq_of_splitGroup {t inner rest : Text} (h : splitGroup t = .ok (inner, rest)) :
    t = '(' :: inner ++ ')' :: rest := by
  cases t with
  | nil => cases h
  | cons c t =>
    simp only [splitGroup] at h
    split at h
    next hc =>
      split at h
      next hp => cases h; simp [hc, eq_of_closeGroup hp]
      next => cases h
    next => cases h

end FormulaPlot
