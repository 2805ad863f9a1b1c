import FormulaPlot.Command.Request
import FormulaPlot.Session

/-!
# Running a command line

`Session.runCommand` reads a command line and does what it asks for: it sets up the log, adjusts the
settings, and then prints the version, checks the program's health, plots, samples or evaluates.
-/

namespace FormulaPlot

/-- What a command leaves behind besides files. -/
structure CommandOutcome where
  exit : Nat
  stdout : String
  /-- What is wrong with the command line, with the usage before it. -/
  complaint : String := ""
  /-- The records that are written to standard error. -/
  records : List Record := []

namespace Command

/-- The version of the program. -/
def version : String := "1.1.1"

/-- A line of hyphens. -/
def rule : String := String.ofList (List.replicate 50 '-') ++ "\n"

/-- The outcome of a check, and its lines. -/
abbrev Check := Bool × String

/-- Whether a known formula has its known value. -/
def checkEvaluation (cfg : Settings) : Noted Record Fault Check :=
  let value : Logged Float := do
    let f ← Answer.formula cfg "(2+3)*4" .null
    (f.evaluate cfg (.real 0)).logged cfg
  let failed (text : String) : Check := (false, s!"[FAIL] Evaluation check failed: {text}\n")
  let check : Logged Check := do
    let x ← value
    if x == 20 then return (true, "[OK] Basic evaluation works\n")
    else
      return (false, s!"[FAIL] Basic evaluation failed: expected 20, got {valueText x}\n")
  Answer.recover check fun e => pure (failed e.message)

/-- Whether known entries of the tables have their known values. -/
def checkTables : Check :=
  if Builtin.sqrt.apply 16 == 4 && Operator.raise.apply 2 10 == 1024 then
    (true,
      s!"[OK] Functions: " ++ ", ".intercalate (Builtin.all.map Builtin.name) ++ "\n" ++
      s!"[OK] Operators: " ++ ", ".intercalate (Operator.all.map Operator.name) ++ "\n")
  else (false, "[FAIL] Function table returned unexpected values\n")

/-- Whether a known formula has its known samples. -/
def checkSampling (cfg : Settings) : Noted Record Fault Check :=
  let failed (text : String) : Check := (false, s!"[FAIL] Sampling check failed: {text}\n")
  let check : Logged Check := do
    let r ← Answer.sample cfg "x^2" 0 2 (some 2) .null
    if r.ok && r.points.map Point.y == [0, 1] then return (true, "[OK] Sampling works\n")
    else return failed r.describe
  Answer.recover check fun e => pure (failed e.message)

/-- Checks the libraries, an evaluation, the tables and a sampling. -/
def healthCheck (cfg : Settings) (libraries : List (String × String)) : Logged (Nat × String) := do
  let evaluation ← checkEvaluation cfg
  let sampling ← checkSampling cfg
  let imports : List Check := libraries.map fun (name, version) =>
    (true, s!"[OK] {name} {version} imported successfully\n")
  let checks := imports ++ [evaluation, checkTables, sampling]
  let passed := (checks.filter (·.1)).length
  let failed := checks.length - passed
  return (if failed = 0 then 0 else 1,
    "Running MinePlot health check...\n" ++ rule ++ String.join (checks.map (·.2)) ++ rule ++
      s!"Health check: {passed} passed, {failed} failed\n")

/-- The settings with the positive numbers of a request in place of theirs. -/
def adjust (cfg : Settings) (r : Request) : Settings :=
  let positive (n : Option Int) (default : Int) := (n.filter (0 < ·)).getD default
  { cfg with
    outputPrecision := positive r.precision cfg.outputPrecision
    maxNestingDepth := positive r.maxDepth cfg.maxNestingDepth }

/-- What a request asks of a plot. -/
def plotRequest (r : Request) (text : String) (xMin xMax : Float) : PlotRequest :=
  { text, xMin, xMax
    unknown := r.unknown
    yMin := r.yRange.map (·.1)
    yMax := r.yRange.map (·.2)
    samples := r.steps
    ascii := r.ascii
    destination :=
      if r.isBare .output then .unnamed
      else match r.output with | some path => .file path | none => .temporary }

/-- An answer to a request about a formula: how it ended, what is printed, and the plot if there is
one. -/
def answer (cfg : Settings) (around : Surroundings) (r : Request) (text : String) :
    Logged (Nat × String × Option PlotAnswer) :=
  let printed (ok : Bool) (fields : List (String × Value)) : Nat × String :=
    (if ok then 0 else 1, Report.printed r.format fields)
  let reported (report : EvalReport) (plot : Option PlotAnswer) :
      Nat × String × Option PlotAnswer :=
    let (exit, out) := printed report.ok report.fields
    (exit, out, plot)
  match r.plot, r.sample with
  | some (xMin, xMax), _ =>
    if r.isBare .steps then do
      let report ← Answer.sampleNowhere cfg text r.unknown
      return reported report none
    else do
      let a ← Answer.plot cfg around (plotRequest r text xMin xMax)
      return reported (a.toReport around) (some a)
  | none, some (xMin, xMax) =>
    if r.isBare .steps then do
      let report ← Answer.sampleNowhere cfg text r.unknown
      return reported report none
    else do
      let report ← Answer.sample cfg text xMin xMax r.steps r.unknown
      let (exit, out) := printed report.ok report.fields
      return (exit, out, none)
  | none, none => do
    let report ←
      if r.isBare .point then Answer.evaluateNowhere cfg text r.unknown
      else Answer.evaluate cfg text (.real r.point) r.unknown
    return reported report none

/-- Does what a request asks for. -/
def perform (cfg : Settings) (around : Surroundings) (r : Request) :
    Logged (Nat × String × Option PlotAnswer) :=
  if r.version then pure (0, version ++ "\n", none)
  else if r.healthCheck then do
    let (exit, out) ← healthCheck cfg around.libraries
    return (exit, out, none)
  else
    match r.expression.filter (· ≠ "") with
    | none => pure (1, usage ++ "Error: an expression is required (use -e/--eval)\n", none)
    | some text => answer cfg around r text

end Command

namespace Session

/-- Runs a command line. A wrong one changes nothing. The records of a run are kept from the rank
on that the command line sets. -/
def runCommand (s : Session) (around : Surroundings) (words : List String) :
    Noted Record Fault CommandOutcome × Session :=
  match Request.parse words with
  | .error e =>
    (pure { exit := 2, stdout := "", complaint := usage ++ s!"mineplot: error: {e.message}\n" }, s)
  | .ok .help => (pure { exit := 0, stdout := usage }, s)
  | .ok (.request r) =>
    -- A trace needs no level. Otherwise the log cannot be set up without one.
    if r.isBare .logLevel && !r.trace then (Noted.fail (.missing .level), s)
    else
      let s := (s.configureLog r.logLevel.name r.logFile r.trace).toOption.getD s
      -- The settings stay adjusted after the run.
      let s := { s with settings := Command.adjust s.settings r }
      let run := Command.perform s.settings around r
      let s := s.record run.notes
      match run.outcome with
      | .error e => (⟨run.notes, .error e⟩, s)
      | .ok (exit, stdout, plot) =>
        (⟨run.notes, .ok { exit, stdout, records := s.kept run.notes }⟩,
          match plot with
          | none => s
          | some a => s.saveImage around a)

end Session

end FormulaPlot
