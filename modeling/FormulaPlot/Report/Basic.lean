import FormulaPlot.Plot.Sampling

/-!
# Reports

A report is the answer to a request: that it went well and what came of it, or what was wrong. An
`EvalReport` answers evaluation and plotting, a `SampleReport` sampling. `fields` gives a report as
a record of the parts it has, `describe` in words.
-/

namespace FormulaPlot

/-- The answer to an evaluation or a plot. -/
structure EvalReport where
  ok : Bool
  value : Option Float := none
  result : Option String := none
  error : Option String := none
  code : Option String := none

namespace EvalReport

/-- The fields that an optional text contributes. -/
def optional (name : String) (v : Option String) : List (String × Value) :=
  v.toList.map fun s => (name, .text s)

/-- A report of an error. -/
def failed (message code : String) : EvalReport :=
  { ok := false, error := some message, code := some code }

/-- The parts that a report has. -/
def fields (r : EvalReport) : List (String × Value) :=
  ("ok", .bool r.ok) :: r.value.toList.map (fun x => ("value", .real x)) ++
    optional "result" r.result ++ optional "error" r.error ++ optional "error_code" r.code

/-- A report in words. -/
def describe (r : EvalReport) : String :=
  if r.ok then
    let parts := "ok=True" :: r.value.toList.map (fun x => "value=" ++ valueText x) ++
      r.result.toList.map fun s => "result=" ++ quote s
    "EvalResult(" ++ ", ".intercalate parts ++ ")"
  else "EvalResult(ok=False, error=" ++ (Value.ofText? r.error).literal ++ ")"

end EvalReport

/-- The answer to a request for samples. -/
structure SampleReport where
  ok : Bool
  points : List Point := []
  skipped : Int := 0
  error : Option String := none
  code : Option String := none

namespace SampleReport

/-- A report of an error. -/
def failed (message code : String) : SampleReport :=
  { ok := false, error := some message, code := some code }

/-- A point as a pair of numbers. -/
def pair (p : Point) : Value := .list [.real p.x, .real p.y]

/-- The parts that a report has. -/
def fields (r : SampleReport) : List (String × Value) :=
  ("ok", .bool r.ok) ::
    (if r.ok then [("points", .list (r.points.map pair)), ("skipped", .int r.skipped)] else []) ++
    EvalReport.optional "error" r.error ++ EvalReport.optional "error_code" r.code

/-- A report in words. -/
def describe (r : SampleReport) : String :=
  if r.ok then s!"SampleResult(ok=True, points={r.points.length}, skipped={r.skipped})"
  else "SampleResult(ok=False, error=" ++ (Value.ofText? r.error).literal ++ ")"

end SampleReport

end FormulaPlot
