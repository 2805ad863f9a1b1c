import FormulaPlot.Formula.Group
import FormulaPlot.Proofs.Number.Typed
import Mathlib.Data.List.Infix

/-!
# Operations on positions

The engine can also be told by positions in a text: it searches a word and gets the position where
it stands, looks at the character of a position, and hands a text to a reader of numerals. Each of
these operations can slip: there is no such word, no such position, or no number. An `Attempt` is a
computation out of such operations. It may slip or fail as formulas fail.

This module relates the single operations to those on lists of characters. The scans and the engine
that are made of them follow in the other modules of this directory.
-/

namespace FormulaPlot.Position

/-- Why a computation on positions stops without a value. -/
inductive Slip where
  /-- A formula has no value, for a cause that is reported. -/
  | malformed (e : EvalError)
  /-- A word is searched for that is not in the text. -/
  | absent
  /-- A position is outside of the text. -/
  | outside
  /-- A text is handed to the reader of numerals and is none. -/
  | unreadable
deriving DecidableEq, Repr

/-- A computation that may stop without a value. -/
abbrev Attempt := Except Slip

variable {α β : Type}

/-- A computation that ends as a formula does: with a value or for a cause that is reported. -/
def ending (x : Except EvalError α) : Attempt α := x.mapError .malformed

@[simp] theorem ending_bind (x : Except EvalError α) (f : α → Except EvalError β) :
    ending (x >>= f) = ending x >>= fun a => ending (f a) := by
  cases x <;> rfl

/-- The value of a computation as one that is known to be its value. A loop that goes on with it may
need this to end. -/
def attach (x : Attempt α) : Attempt { a // x = pure a } :=
  match x with
  | .ok a => pure ⟨a, rfl⟩
  | .error e => throw e

/-- What is known of a value changes nothing. -/
theorem attach_bind {x : Attempt α} {a : α} (h : x = pure a) (f : { a // x = pure a } → Attempt β) :
    attach x >>= f = f ⟨a, h⟩ := by
  subst h
  rfl

/-- A computation that stops without a value does so with what is to follow. -/
theorem attach_bind_error {x : Attempt α} {e : Slip} (h : x = throw e)
    (f : { a // x = pure a } → Attempt β) : attach x >>= f = throw e := by
  subst h
  rfl

/-- Values that are the same computation are the same. -/
theorem pure_inj {a b : α} (h : (pure a : Attempt α) = pure b) : a = b := Except.ok.inj h

/-! ## Characters -/

/-- The character at a position. -/
def charAt (t : Text) (i : Int) : Attempt Char :=
  if i < 0 then throw .outside
  else
    match t[i.toNat]? with
    | some c => pure c
    | none => throw .outside

/-- The character after a piece of text is at the position of its length. -/
theorem charAt_append (u : Text) (c : Char) (v : Text) :
    charAt (u ++ c :: v) u.length = pure c := by
  rw [charAt, if_neg (by omega), Int.toNat_natCast, List.getElem?_append_right le_rfl, Nat.sub_self]
  rfl

/-- The last character of a piece of text is one before the position of its length. -/
theorem charAt_append_last (u : Text) (c : Char) (v : Text) :
    charAt (u ++ [c] ++ v) ((u ++ [c]).length - 1) = pure c := by
  have hpos : (((u ++ [c]).length : Int) - 1) = u.length := by simp
  rw [hpos, List.append_assoc]
  exact charAt_append u c v

/-! ## Words -/

/-- The first position at which a word stands in a text. -/
def find (word t : Text) : Attempt Nat :=
  match (List.range (t.length + 1)).find? fun i => word.isPrefixOf (t.drop i) with
  | some i => pure i
  | none => throw .absent

/-- The search on lists finds a word where it stands, and no earlier place of it. -/
theorem first_of_splitAt? {word t before after : Text}
    (h : splitAt? word t = some (before, after)) :
    word <+: t.drop before.length ∧ ∀ j < before.length, ¬ word <+: t.drop j := by
  induction t generalizing before with
  | nil =>
    rw [splitAt?] at h
    split at h
    next hword =>
      obtain ⟨rfl, -⟩ : [] = before ∧ [] = after := by simpa using h
      exact ⟨hword ▸ List.nil_prefix, fun j hj => absurd hj (Nat.not_lt_zero j)⟩
    next => cases h
  | cons c t ih =>
    rw [splitAt?] at h
    split at h
    next hprefix =>
      obtain ⟨rfl, -⟩ : [] = before ∧ (c :: t).drop word.length = after := by simpa using h
      exact ⟨List.isPrefixOf_iff_prefix.1 hprefix, fun j hj => absurd hj (Nat.not_lt_zero j)⟩
    next hprefix =>
      obtain ⟨⟨b, a⟩, hb, he⟩ := Option.map_eq_some_iff.1 h
      obtain ⟨rfl, rfl⟩ : c :: b = before ∧ a = after := by simpa using he
      -- The word stands in the rest, and no earlier place there is one, nor is the first character.
      obtain ⟨hat, hbefore⟩ := ih hb
      refine ⟨hat, fun j hj => ?_⟩
      cases j with
      | zero => exact fun hat => hprefix (List.isPrefixOf_iff_prefix.2 hat)
      | succ j => exact hbefore j (Nat.succ_lt_succ_iff.1 hj)

/-- Where a word stands first, there is what the search on lists finds before it. -/
theorem find_of_splitAt? {word t before after : Text}
    (h : splitAt? word t = some (before, after)) : find word t = pure before.length := by
  obtain ⟨hat, hbefore⟩ := first_of_splitAt? h
  have hlength : before.length < t.length + 1 := by
    rw [eq_of_splitAt? h, List.length_append, List.length_append]
    omega
  have hfind : (List.range (t.length + 1)).find? (fun i => word.isPrefixOf (t.drop i)) =
      some before.length := by
    -- There the word is a start of the rest, and at no smaller position is it one.
    rw [List.find?_range_eq_some]
    refine ⟨List.isPrefixOf_iff_prefix.2 hat, List.mem_range.2 hlength, fun j hj => ?_⟩
    rw [Bool.not_eq_true', ← Bool.not_eq_true, List.isPrefixOf_iff_prefix]
    exact hbefore j hj
  rw [find, hfind]

/-- A word that the search on lists does not find is not in the text. -/
theorem splitAt?_eq_none_iff {word t : Text} : splitAt? word t = none ↔ ¬ word <:+: t := by
  induction t with
  | nil => simp [splitAt?]
  | cons c t ih =>
    rw [List.infix_cons_iff, not_or, ← ih, ← List.isPrefixOf_iff_prefix, splitAt?]
    split
    next h => simp [h]
    next h => simp [h]

/-- The search for a character is that for the word of it. -/
theorem splitAtChar?_eq (c : Char) (t : Text) : splitAtChar? c t = splitAt? [c] t := by
  induction t with
  | nil => rfl
  | cons d t ih =>
    rw [splitAtChar?, splitAt?, ih]
    by_cases h : d = c
    · subst h
      simp
    · simp [h, Ne.symm h]

/-! ## Numbers -/

/-- The value of a text that must be one number: a text that passes as a literal goes to the reader
of numerals. -/
def read (t : Text) : Attempt Float :=
  if (Literal.parse? t).isSome then
    match Numeral.float? (String.ofList t) with
    | some x => pure x
    | none => throw .unreadable
  else if t = [] ∨ t = ['-'] then throw (.malformed (.missingOperand t))
  else throw (.malformed (.invalidNumber t))

/-- The reader of numerals never refuses what has passed as a literal. -/
theorem read_eq (t : Text) : read t = ending (readNumber t) := by
  rw [read, readNumber]
  cases h : Literal.parse? t with
  | some l =>
    -- What passes as a literal is a numeral, with the same value.
    rw [Numeral.float?_of_parse? h]
    rfl
  | none =>
    simp only [Option.isSome_none, Bool.false_eq_true, if_false]
    split <;> rfl

end FormulaPlot.Position
