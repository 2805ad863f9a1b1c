import FormulaPlot.Fault
import FormulaPlot.Formula.Reduction
import FormulaPlot.Formula.Substitution
import FormulaPlot.Log.Record
import FormulaPlot.Settings

/-!
# Formulas

A `Formula` is a text and the one character in it that is unknown, its variable. The text is kept
as it was given and looked at only when the formula is evaluated. `Formula.evaluate` gives its value
for a value of the variable.

However high the limit on nesting is set, a `Stack` has room for some levels only. A step that is
logged takes more of it than one that is not, so a trace gives out a few levels earlier.
-/

namespace FormulaPlot

/-- A computation that leaves records in the log. -/
abbrev Logged := Noted Record Fault

/-- A text with one variable. -/
structure Formula where
  text : String
  unknown : Char
deriving DecidableEq, Repr

/-- The stack that the reductions of a formula share, measured in frames. Each level of nesting
keeps two of them: one for its reduction, and one for the search for calls and groups in its
text. -/
structure Stack where
  /-- The frames that a formula finds free. -/
  room : Nat
  /-- The frames that the work on a text takes for a while. -/
  work : Nat
  /-- The frames that it takes to log a step, on top of the work. -/
  record : Nat
deriving DecidableEq, Repr

namespace Stack

/-- The frames that a step needs, logged or not. -/
def step (s : Stack) (traced : Bool) : Nat := if traced then s.work + s.record else s.work

/-- How many levels deeper a step still has the frames that it needs, where so many are free. -/
def levels (s : Stack) (traced : Bool) (free : Int) : Int := (free - s.step traced) / 2

/-- The deepest level on which a step has the frames that it needs. -/
def reach (s : Stack) (traced : Bool) : Int := s.levels traced s.room

end Stack

namespace Formula

/-- The stack that formulas find, with room for 494 levels, or for 490 if steps are logged. What
surrounds the program may leave somewhat more or less of it. -/
def stack : Stack := ⟨992, 3, 8⟩

/-- The deepest nesting that the engine follows, whatever limit is set. -/
def reach (cfg : Settings) : Int := stack.reach cfg.traceRewrites

/-- The formula with a text and a variable, which must be a text of one character. Without one it is
the variable of the settings. -/
def make (cfg : Settings) (text : String) (unknown : Value) : Except InputError Formula :=
  let given : Value :=
    match unknown with
    | .null => .text cfg.defaultVariable
    | v => v
  match given with
  | .text s =>
    match s.toList with
    | [c] => .ok ⟨text, c⟩
    | _ => .error (.invalidVariable given.literal)
  | _ => .error (.invalidVariable given.literal)

/-- The text that the engine reduces for a value of the variable. -/
def prepare (cfg : Settings) (f : Formula) (v : Quantity) : Except EvalError Text := do
  let t ← normalize cfg.maxInputLength f.text.toList
  let x ← v.toFloat
  return substitute t f.unknown (plainText x)

/-- The value of a formula. Where the limit on nesting is past the engine's reach, the reach is the
limit, under a message of its own. -/
def evaluate (cfg : Settings) (f : Formula) (v : Quantity) : Run Float := do
  let t ← Noted.ofExcept (f.prepare cfg v)
  if cfg.maxNestingDepth ≤ reach cfg then reduce cfg.maxNestingDepth 0 t
  else
    -- The limit of the settings is never met, so an error of depth is that of the reach.
    (reduce (reach cfg) 0 t).mapError fun e =>
      match e with
      | .tooDeep _ => .pastReach
      | e => e

/-- A formula in words. -/
def describe (f : Formula) : String :=
  s!"Expression({quote f.text}, variable={quote (String.singleton f.unknown)})"

end Formula

/-- The record of a step, for the steps that a trace shows. -/
def Step.record? (s : Step) : Option Record :=
  s.message?.map fun message => { level := .debug, topic := .evaluator, message }

/-- A run whose steps are logged if the settings ask for a trace. To look at the settings at every
step comes to the same (`Stepwise.evaluate_eq`). -/
def Noted.logged {α : Type} (cfg : Settings) (r : Run α) : Logged α :=
  (r.mapNotes fun steps => if cfg.traceRewrites then steps.filterMap Step.record? else [])
    |>.mapError .malformed

end FormulaPlot
