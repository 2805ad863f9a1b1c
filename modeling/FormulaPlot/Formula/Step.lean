import FormulaPlot.Formula.Error
import FormulaPlot.Formula.Table
import FormulaPlot.Noted
import FormulaPlot.Number.Layout

/-!
# Steps of a reduction

A run of the rewriting engine notes each of its steps. `Step.message?` words the steps that a trace
shows.
-/

namespace FormulaPlot

/-- The kinds of text that open parentheses: the call of a function or a plain group. -/
inductive Redex where
  | call (f : Builtin)
  | group
deriving DecidableEq, Repr

namespace Redex

/-- All kinds in the order in which they are resolved, the calls before the plain groups. -/
def all : List Redex := Builtin.all.map call ++ [group]

/-- The value of a call or group from the value of its inside. -/
def apply : Redex → Float → Float
  | call f, v => f.apply v
  | group, v => v

/-- What is before the first call or group of a kind, and the text from where its parenthesis must
stand. -/
def split? : Redex → Text → Option (Text × Text)
  | call f, t => splitAt? f.symbol t
  | group, t => (splitAtChar? '(' t).map fun (before, after) => (before, '(' :: after)

end Redex

/-- What the engine does. -/
inductive Step where
  /-- A reduction begins, before its depth is checked. -/
  | enter
  /-- A reduction goes to work on a text without unary pluses. -/
  | reducing (text : Text)
  /-- A call or group gives way to its value. -/
  | replaced (kind : Redex) (inner result : Text)
  /-- An operator and its operands give way to their value. -/
  | applied (left : Text) (o : Operator) (right result : Text)
  /-- A reduction is left with a text to be read as a number. -/
  | returning (text : Text)
deriving DecidableEq, Repr

namespace Step

/-- The words of a trace for a step. -/
def message? : Step → Option String
  | enter => none
  | reducing text => some s!"Reducing {String.ofList text}"
  | replaced (.call f) inner result =>
    some s!"Replaced function {f.name}({String.ofList inner}) with {String.ofList result}"
  | replaced .group inner result =>
    some s!"Replaced ({String.ofList inner}) with {String.ofList result}"
  | applied left o right result =>
    some s!"Replaced {String.ofList (left ++ o.symbol :: right)} with {String.ofList result}"
  | returning text => some s!"Returning value {String.ofList text}"

end Step

/-- A run of the engine. -/
abbrev Run := Noted Step EvalError

end FormulaPlot
