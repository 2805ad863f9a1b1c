import FormulaPlot.Formula.Operand
import FormulaPlot.Proofs.Position.Basic

/-!
# Scans by position

The signs, the groups and the operands of a text are found by loops over its positions that look at
the characters there and next to there. Each loop is told here as it runs, and shown to look at no
position outside of the text and to find what the recursion on lists finds. The argument is the same
for all of them: a loop at the position after `u` in a text `u ++ v` has `v` before it.
-/

namespace FormulaPlot.Position

/-! ## Signs -/

/-- What a loop over the characters keeps from position `i` on. -/
def collect (keep : Nat → Char → Attempt (Option Char)) : Nat → Text → Attempt Text
  | _, [] => pure []
  | i, c :: t => do
    let kept ← keep i c
    let rest ← collect keep (i + 1) t
    pure (kept.toList ++ rest)

/-- What is kept of a character when unary pluses are removed. -/
def keepPlus (t : Text) (i : Nat) (c : Char) : Attempt (Option Char) :=
  if c = '+' then
    if i = 0 ∨ i + 1 = t.length then pure none
    else do
      let previous ← charAt t (i - 1)
      pure (if endsOperand previous then some c else none)
  else pure (some c)

/-- Removes unary pluses. -/
def stripUnaryPlus (t : Text) : Attempt Text := collect (keepPlus t) 0 t

/-- What is kept of a character when minuses are marked. -/
def keepMinus (t : Text) (i : Nat) (c : Char) : Attempt (Option Char) :=
  if c = '-' then
    if i + 1 = t.length then pure none
    else if i = 0 then pure (some c)
    else do
      let previous ← charAt t (i - 1)
      if isAsciiDigit previous then do
        let next ← charAt t (i + 1)
        pure (some (if isAsciiDigit next then binaryMinus else c))
      else pure (some c)
  else pure (some c)

/-- Marks the minuses of subtraction. -/
def markMinus (t : Text) : Attempt Text := collect (keepMinus t) 0 t

/-- A plus is kept where the recursion on lists keeps it. -/
theorem keepPlus_eq (u : Text) (c : Char) (v : Text) :
    keepPlus (u ++ c :: v) u.length c = pure
      (if c = '+' ∧ (v = [] ∨ u.getLast?.any endsOperand = false) then none else some c) := by
  have hlast : u.length + 1 = (u ++ c :: v).length ↔ v = [] := by
    rw [List.length_append, List.length_cons, ← List.length_eq_zero_iff]
    omega
  -- The position before is looked at only if there is one, and then it is that of the last in `u`.
  rw [keepPlus]
  by_cases hc : c = '+'
  · simp only [if_pos hc, hlast]
    rcases List.eq_nil_or_concat' u with rfl | ⟨w, q, rfl⟩
    · simp [hc]
    · by_cases hv : v = []
      · simp [hc, hv]
      · rw [if_neg (by simp [hv]), charAt_append_last]
        cases hq : endsOperand q <;> simp [hc, hv, hq]
  · rw [if_neg hc, if_neg fun h => hc h.1]

/-- A minus is kept or marked where the recursion on lists does so. -/
theorem keepMinus_eq (u : Text) (c : Char) (v : Text) :
    keepMinus (u ++ c :: v) u.length c = pure
      (if c = '-' then
        v.head?.map fun next =>
          if u.getLast?.any isAsciiDigit && isAsciiDigit next then binaryMinus else c
      else some c) := by
  have hlast : u.length + 1 = (u ++ c :: v).length ↔ v = [] := by
    rw [List.length_append, List.length_cons, ← List.length_eq_zero_iff]
    omega
  -- Neither neighbour is looked at before it is known to be there.
  rw [keepMinus]
  by_cases hc : c = '-'
  · simp only [if_pos hc, hlast]
    cases v with
    | nil => rfl
    | cons next v =>
      rw [if_neg (List.cons_ne_nil _ _)]
      rcases List.eq_nil_or_concat' u with rfl | ⟨w, q, rfl⟩
      · simp
      · rw [if_neg (by simp), charAt_append_last]
        have hnext : charAt (w ++ [q] ++ c :: next :: v) ((w ++ [q]).length + 1) = pure next := by
          have := charAt_append (w ++ [q] ++ [c]) next v
          rwa [List.append_assoc, List.length_append] at this
        cases hq : isAsciiDigit q
        · simp [hq]
        · rw [pure_bind, if_pos hq, hnext]
          simp [hq]
  · rw [if_neg hc, if_neg hc]

/-- From every position on, the loop keeps what the recursion on lists keeps. -/
theorem collect_keepPlus (u v : Text) :
    collect (keepPlus (u ++ v)) u.length v = pure (dropUnaryPlusAfter u.getLast? v) := by
  induction v generalizing u with
  | nil => rfl
  | cons c v ih =>
    -- The loop at the next position has one character more before it.
    have hrest := ih (u ++ [c])
    rw [List.append_assoc, List.singleton_append, List.length_append, List.length_singleton,
      List.getLast?_concat] at hrest
    rw [collect, keepPlus_eq, pure_bind, hrest, pure_bind, dropUnaryPlusAfter]
    split <;> rfl

/-- Removing unary pluses by position looks at no position outside of the text and removes those
that the recursion on lists removes. -/
theorem stripUnaryPlus_eq (t : Text) : stripUnaryPlus t = pure (dropUnaryPlus t) :=
  collect_keepPlus [] t

/-- From every position on, the loop marks what the recursion on lists marks. -/
theorem collect_keepMinus (u v : Text) :
    collect (keepMinus (u ++ v)) u.length v = pure (markBinaryMinusAfter u.getLast? v) := by
  induction v generalizing u with
  | nil => rfl
  | cons c v ih =>
    have hrest := ih (u ++ [c])
    rw [List.append_assoc, List.singleton_append, List.length_append, List.length_singleton,
      List.getLast?_concat] at hrest
    rw [collect, keepMinus_eq, pure_bind, hrest, pure_bind]
    by_cases hc : c = '-'
    · cases v <;> simp [markBinaryMinusAfter, hc]
    · cases v <;> simp [markBinaryMinusAfter, hc]

/-- Marking minuses by position looks at no position outside of the text and marks those that the
recursion on lists marks. -/
theorem markMinus_eq (t : Text) : markMinus t = pure (markBinaryMinus t) :=
  collect_keepMinus [] t

/-! ## Groups -/

/-- The first of the given positions at which as many parentheses are closed as opened, where
`depth` of them are open before. -/
def scanGroup (t : Text) (depth : Int) : List Nat → Attempt Nat
  | [] => throw (.malformed .openGroup)
  | i :: is => do
    let c ← charAt t i
    if c = '(' then scanGroup t (depth + 1) is
    else if c = ')' then
      if depth - 1 = 0 then pure i else scanGroup t (depth - 1) is
    else scanGroup t depth is

/-- The position of the parenthesis that closes the group at a position. -/
def findGroupEnd (t : Text) (i : Nat) : Attempt Nat :=
  if t.length ≤ i then throw (.malformed .missingGroup)
  else do
    let c ← charAt t i
    if c = '(' then scanGroup t 0 (List.range' i (t.length - i))
    else throw (.malformed .missingGroup)

/-- The position where a group ends whose inside, from a position on, is the first of two parts. -/
def endOf (i : Nat) : Option (Text × Text) → Attempt Nat
  | some (inner, _) => pure (i + inner.length)
  | none => throw (.malformed .openGroup)

/-- A character more inside of a group is a position more before its end. -/
theorem endOf_map (i : Nat) (c : Char) (parts : Option (Text × Text)) :
    endOf i (parts.map fun (inner, rest) => (c :: inner, rest)) = endOf (i + 1) parts := by
  cases parts with
  | none => rfl
  | some parts =>
    simp only [Option.map_some, endOf, List.length_cons, Nat.add_assoc, Nat.add_comm 1]

/-- Inside of `depth + 1` groups, the loop finds the end of the outermost one where the recursion on
lists finds it. -/
theorem scanGroup_eq (u v : Text) (depth : Nat) :
    scanGroup (u ++ v) (depth + 1) (List.range' u.length v.length) =
      endOf u.length (closeGroup depth v) := by
  induction v generalizing u depth with
  | nil => rfl
  | cons c v ih =>
    -- The next position with one character more before it, whatever is open by then.
    have hrest (depth : Nat) : scanGroup (u ++ c :: v) (depth + 1)
        (List.range' (u.length + 1) v.length) = endOf (u.length + 1) (closeGroup depth v) := by
      simpa using ih (u ++ [c]) depth
    rw [List.length_cons, List.range'_succ, scanGroup, charAt_append, pure_bind]
    by_cases ho : c = '('
    · have := hrest (depth + 1)
      push_cast at this
      simp only [closeGroup, if_pos ho, this, endOf_map]
    · by_cases hc : c = ')'
      · rw [if_neg ho, if_pos hc]
        cases depth with
        | zero => simp [closeGroup, hc, endOf]
        | succ depth =>
          rw [if_neg (by omega), show ((depth + 1 : ℕ) : Int) + 1 - 1 = (depth : Int) + 1 by omega]
          simp only [closeGroup, if_neg ho, if_pos hc, hrest, endOf_map]
      · simp only [closeGroup, if_neg ho, if_neg hc, hrest, endOf_map]

/-- The search for the end of a group looks at no position outside of the text and ends as the
search on lists does, with the position after the inside or for the same cause. -/
theorem findGroupEnd_eq (t : Text) (i : Nat) : findGroupEnd t i = ending (groupEnd t i) := by
  rw [findGroupEnd, groupEnd]
  by_cases hi : t.length ≤ i
  · rw [if_pos hi, List.drop_eq_nil_of_le hi]
    rfl
  · have hlt : i < t.length := not_le.1 hi
    -- The position is that of a character `c` after a text `u`.
    obtain ⟨u, c, v, rfl, rfl⟩ : ∃ u c v, t = u ++ c :: v ∧ u.length = i :=
      ⟨t.take i, t[i], t.drop (i + 1), by
        rw [← List.drop_eq_getElem_cons hlt, List.take_append_drop], by simp [hlt.le]⟩
    rw [if_neg hi, charAt_append, pure_bind, List.drop_left, splitGroup]
    by_cases hc : c = '('
    · have hlength : (u ++ c :: v).length - u.length = v.length + 1 := by simp
      have hrest := scanGroup_eq (u ++ [c]) v 0
      rw [List.append_assoc, List.singleton_append, List.length_append,
        List.length_singleton] at hrest
      rw [if_pos hc, if_pos hc, hlength, List.range'_succ, scanGroup, charAt_append, pure_bind,
        if_pos hc]
      -- The loop starts at the parenthesis itself, which opens the first group.
      refine hrest.trans ?_
      cases closeGroup 0 v with
      | none => rfl
      | some parts => rfl
    · rw [if_neg hc, if_neg hc]
      rfl

/-! ## Operands -/

/-- The position where the operand starts that ends right before a position. -/
def operandStart (t : Text) : Nat → Attempt Nat
  | 0 => pure 0
  | i + 1 => do
    let c ← charAt t i
    if isOperandChar c then operandStart t i else pure (i + 1)

/-- The position where the operand ends that starts at a position. -/
def operandEnd (t : Text) (i : Nat) : Attempt Nat :=
  if i < t.length then do
    let c ← charAt t i
    if isOperandChar c then operandEnd t (i + 1) else pure i
  else pure i
termination_by t.length - i

/-- The loop to the left stops where the recursion on lists stops. -/
theorem operandStart_eq (u v : Text) :
    operandStart (u ++ v) u.length = pure (beforeOperand u).length := by
  induction u using List.reverseRecOn generalizing v with
  | nil => rfl
  | append_singleton u c ih =>
    -- The recursion on lists takes the last character away or stops at it.
    have hbefore : beforeOperand (u ++ [c]) =
        if isOperandChar c then beforeOperand u else u ++ [c] := by
      rw [beforeOperand, List.reverse_append, List.reverse_singleton, List.singleton_append,
        List.dropWhile_cons]
      split <;> simp [beforeOperand]
    rw [List.length_append, List.length_singleton, List.append_assoc, List.singleton_append,
      operandStart, charAt_append, pure_bind, hbefore]
    split
    · exact ih (c :: v)
    · simp

/-- The loop to the right stops where the recursion on lists stops. -/
theorem operandEnd_eq (u v : Text) :
    operandEnd (u ++ v) u.length = pure (u.length + (operandAfter v).length) := by
  induction v generalizing u with
  | nil => rw [operandEnd, if_neg (by simp)]; rfl
  | cons c v ih =>
    have hrest := ih (u ++ [c])
    rw [List.append_assoc, List.singleton_append, List.length_append,
      List.length_singleton] at hrest
    rw [operandEnd, if_pos (by simp), charAt_append, pure_bind, operandAfter, List.takeWhile_cons]
    split
    · rw [hrest, List.length_cons, operandAfter, Nat.add_assoc, Nat.add_comm 1]
    · rfl

end FormulaPlot.Position
