import FormulaPlot.Command.Token
import FormulaPlot.Text.Quoted

/-!
# Why a command line cannot be read

`ArgumentError` names each cause and `ArgumentError.message` words it, with the flag under all its
spellings.
-/

namespace FormulaPlot

/-- What is wrong with a command line. -/
inductive ArgumentError where
  /-- A word begins more than one flag. -/
  | ambiguous (a : Ambiguity)
  /-- A flag has too few values. -/
  | expected (o : Flag)
  /-- A value is attached to a flag that takes none. -/
  | ignored (o : Flag) (value : Text)
  /-- A value is not a number of the kind with a name. -/
  | badNumber (o : Flag) (kind value : String)
  /-- A value is none of the choices. -/
  | badChoice (o : Flag) (value : String) (choices : List String)
  /-- No flag takes these words. -/
  | unrecognized (words : List String)
deriving DecidableEq, Repr

namespace ArgumentError

/-- The words for what is wrong with a command line. -/
def message : ArgumentError → String
  | ambiguous a => s!"ambiguous option: {a.word} could match " ++ ", ".intercalate a.candidates
  | expected o =>
    s!"argument {o.label}: expected " ++
      if o.arity = 1 then "one argument" else s!"{o.arity} arguments"
  | ignored o value =>
    s!"argument {o.label}: ignored explicit argument {quote (String.ofList value)}"
  | badNumber o kind value => s!"argument {o.label}: invalid {kind} value: {quote value}"
  | badChoice o value choices =>
    s!"argument {o.label}: invalid choice: {quote value} (choose from " ++
      ", ".intercalate (choices.map quote) ++ ")"
  | unrecognized words => "unrecognized arguments: " ++ " ".intercalate words

end ArgumentError

end FormulaPlot
