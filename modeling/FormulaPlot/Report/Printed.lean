import FormulaPlot.Report.Json

/-!
# Printed reports

Reports are printed for people or as JSON. People get an error, the samples one a line, the result,
or else the whole record in literal notation.
-/

namespace FormulaPlot

/-- The ways to print a report. -/
inductive Format where
  | human | json
deriving DecidableEq, Repr

namespace Format

/-- The ways to print a report, in the order in which the command line offers them. -/
def all : List Format := [json, human]

/-- The name of a way to print on the command line. -/
def name : Format → String
  | human => "human"
  | json => "json"

end Format

namespace Report

/-- A sample on a line, its numbers a tab apart. -/
def sampleLine : Value → String
  | .list values => "\t".intercalate (values.map Value.plain) ++ "\n"
  | v => v.plain ++ "\n"

/-- The items of a list value. -/
def items : Value → List Value
  | .list values => values
  | _ => []

/-- A report for people. -/
def human (fields : List (String × Value)) : String :=
  if ((Value.field? fields "ok").getD .null).isTrue then
    match Value.field? fields "points", Value.field? fields "result" with
    | some points, _ =>
      let skipped := (Value.field? fields "skipped").getD .null
      String.join ((items points).map sampleLine) ++
        if skipped.isTrue then s!"Skipped {skipped.plain} non-finite samples\n" else ""
    | none, some result => result.plain ++ "\n"
    | none, none => (Value.record fields).literal ++ "\n"
  else "Error: " ++ ((Value.field? fields "error").getD .null).plain ++ "\n"

/-- A report as it is printed, with a line end after it. -/
def printed (format : Format) (fields : List (String × Value)) : String :=
  match format with
  | .json => Json.lines 0 (.record fields) ++ "\n"
  | .human => human fields

end Report

end FormulaPlot
