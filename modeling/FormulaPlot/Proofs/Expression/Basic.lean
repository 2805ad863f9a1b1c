import FormulaPlot.Proofs.Operator.Level
import FormulaPlot.Proofs.Phrase.Run

/-!
# Expressions

The expressions of the documented grammar are sequences of atoms joined by binary operators. An
atom is a leaf, such as a number, or the call of a function or a group, with an expression in its
parentheses. Subtraction is written as a hyphen or with its own symbol.

`Expression.value?` is the value of an expression as a tree: atoms are evaluated first, and then
the operators of a sequence apply level by level. `Expression.text` writes an expression.
-/

namespace FormulaPlot

/-- What joins two atoms: an operator with its symbol, or subtraction written as a hyphen. -/
inductive Joint where
  | operator (o : Operator)
  | hyphen
deriving DecidableEq

namespace Joint

/-- The character of a joint. -/
def symbol : Joint → Char
  | operator o => o.symbol
  | hyphen => '-'

/-- The operator of a joint. -/
def meaning : Joint → Operator
  | operator o => o
  | hyphen => .subtract

end Joint

mutual

/-- A leaf, or an expression in the parentheses of a call or group. -/
inductive Atom (ν : Type) where
  | leaf (n : ν)
  | call (k : Redex) (e : Expression ν)

/-- Atoms with joints between them. -/
inductive Expression (ν : Type) where
  | single (a : Atom ν)
  | join (a : Atom ν) (j : Joint) (rest : Expression ν)

end

variable {ν : Type}

mutual

/-- The text of an atom, whose leaves have the given texts. -/
def Atom.text (leaf : ν → Text) : Atom ν → Text
  | .leaf n => leaf n
  | .call k e => k.word ++ '(' :: (e.text leaf ++ [')'])

/-- The text of an expression. -/
def Expression.text (leaf : ν → Text) : Expression ν → Text
  | .single a => a.text leaf
  | .join a j rest => a.text leaf ++ j.symbol :: rest.text leaf

end

/-- The value of a sequence of atoms by the order of the operators between their values. -/
def inOrder (combine : Operator → Float → Float → Option Float) (_ : Expression ν)
    (p : Float × List (Operator × Float)) : Option Float :=
  (levels combine Operator.all p.1 p.2).map Prod.fst

section Value

variable (close : Expression ν → Float × List (Operator × Float) → Option Float) (leaf : ν → Float)

mutual

/-- The value of an atom, whose leaves have the given values. `close` gives the value of a sequence
from those of its atoms. -/
def Atom.value? : Atom ν → Option Float
  | .leaf n => some (leaf n)
  | .call k e => (e.parts?.bind (close e)).map k.apply

/-- The values of the atoms of an expression, with the operators between them. -/
def Expression.parts? : Expression ν → Option (Float × List (Operator × Float))
  | .single a => a.value?.map fun x => (x, [])
  | .join a j rest => a.value?.bind fun x =>
    rest.parts?.map fun p => (x, (j.meaning, p.1) :: p.2)

end

/-- The value of an expression. -/
def Expression.value? (e : Expression ν) : Option Float := (e.parts? close leaf).bind (close e)

end Value

mutual

/-- How deep calls and groups are nested in an atom. -/
def Atom.depth : Atom ν → Nat
  | .leaf _ => 0
  | .call _ e => e.depth + 1

/-- How deep calls and groups are nested in an expression. -/
def Expression.depth : Expression ν → Nat
  | .single a => a.depth
  | .join a _ rest => max a.depth rest.depth

end

/-! ## Phrases of expressions -/

mutual

/-- An atom in front of a phrase. -/
def Atom.phrase (leaf : ν → Text) : Atom ν → Phrase → Phrase
  | .leaf n, rest => .chars (leaf n) rest
  | .call k e, rest => .call k (e.phrase leaf) rest

/-- The phrase of an expression. -/
def Expression.phrase (leaf : ν → Text) : Expression ν → Phrase
  | .single a => a.phrase leaf .nil
  | .join a j rest => a.phrase leaf (.char j.symbol (rest.phrase leaf))

end

mutual

/-- The text of an atom in front of a phrase. -/
theorem Atom.text_phrase (leaf : ν → Text) (p : Phrase) :
    (a : Atom ν) → (a.phrase leaf p).text = a.text leaf ++ p.text
  | .leaf n => by rw [Atom.phrase, Atom.text, Phrase.text_chars]
  | .call k e => by
    rw [Atom.phrase, Atom.text, Phrase.text, Expression.text_phrase leaf e]
    simp

/-- The text of the phrase of an expression is its text. -/
theorem Expression.text_phrase (leaf : ν → Text) :
    (e : Expression ν) → (e.phrase leaf).text = e.text leaf
  | .single a => by
    rw [Expression.phrase, Expression.text, Atom.text_phrase leaf .nil a]
    exact List.append_nil _
  | .join a j rest => by
    rw [Expression.phrase, Expression.text, Atom.text_phrase leaf _ a, Phrase.text,
      Expression.text_phrase leaf rest]

end

end FormulaPlot
