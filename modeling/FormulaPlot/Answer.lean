import FormulaPlot.Formula.Group
import FormulaPlot.Plot.Picture
import FormulaPlot.Report.Basic

/-!
# Answers to requests

The requests of the library: `evaluate` gives the value of a formula, `check` tells whether it has
one, `sample` lists points of its curve and `plot` draws them. Formulas without value and bad
requests are reported; other faults are not.
-/

namespace FormulaPlot

/-- What the program finds around it. -/
structure Surroundings where
  /-- Whether a file can be written under a path. -/
  canWrite : String → Bool
  /-- The path of a picture that was given none. -/
  temporary : String
  /-- The libraries at work and their versions. -/
  libraries : List (String × String)

/-- What comes of a plot. -/
inductive PlotAnswer where
  /-- A report, with the picture in characters if there is one. -/
  | report (r : EvalReport)
  /-- An image is to be saved under a path, or in a temporary file. -/
  | saved (path : Option String) (points : List Point)

/-- Where an image goes. -/
inductive Destination where
  | temporary
  | file (path : String)
  /-- A path is asked for, but none is given. -/
  | unnamed
deriving DecidableEq, Repr

/-- What is asked of a plot. -/
structure PlotRequest where
  text : String
  unknown : Value := .null
  xMin : Float := -10
  xMax : Float := 10
  yMin : Option Float := none
  yMax : Option Float := none
  samples : Option Int := none
  /-- Whether the picture is to be in characters. -/
  ascii : Bool := false
  /-- Where the picture goes if it is an image. -/
  destination : Destination := .temporary

/-- The window of a plot: the one asked for, or the one that fits the points. -/
def PlotRequest.window (q : PlotRequest) (points : List Point) : Except InputError Window :=
  match q.yMin, q.yMax with
  | some yMin, some yMax => Window.validate ⟨q.xMin, q.xMax, yMin, yMax⟩
  | _, _ => .ok (Window.around q.xMin q.xMax points)

namespace Answer

/-- A value with a number of significant digits, or else that of the settings. -/
def display (cfg : Settings) (x : Float) (count : Option Int) : Except ArithmeticFault String :=
  let count := count.getD cfg.outputPrecision
  -- A precision is read as a long word first and then used as a short one.
  if count < 0 then .error .negativePrecision
  else if Nat.pow 2 63 ≤ count then .error .precisionTooLong
  else if Nat.pow 2 31 ≤ count then .error .precisionTooBig
  else .ok (displayText count.toNat x)

/-- Reports a formula without value or a bad request, and hands on all other faults. -/
def reporting {α : Type} (failed : String → String → α) (e : Fault) : Logged α :=
  match e with
  | .malformed e => pure (failed e.message e.code)
  | .invalid e => pure (failed e.message e.code)
  | e => Noted.fail e

/-- Goes on after a failure, keeping the records left before it. -/
def recover {α : Type} (x : Logged α) (handle : Fault → Logged α) : Logged α :=
  match x.outcome with
  | .ok a => ⟨x.notes, .ok a⟩
  | .error e => ⟨x.notes ++ (handle e).notes, (handle e).outcome⟩

/-- The formula of a request. -/
def formula (cfg : Settings) (text : String) (unknown : Value) : Logged Formula :=
  Noted.ofExcept ((Formula.make cfg text unknown).mapError .invalid)

/-- Reports the value of the formula with a text. A failure is logged. -/
def report (cfg : Settings) (text : String) (value : Logged Float) : Logged EvalReport := do
  let value : Except (String × String) Float ←
    recover (value >>= fun x => pure (.ok x)) (reporting fun message code => .error (message, code))
  match value with
  | .ok x => do
    let shown ← Noted.ofExcept ((display cfg x none).mapError .arithmetic)
    return { ok := true, value := some x, result := some shown }
  | .error (message, code) => do
    Noted.note {
      level := .debug, topic := .api
      message := s!"Evaluation of {quote text} failed: {message}" }
    return EvalReport.failed message code

/-- The value of a formula where its variable has a value. -/
def evaluate (cfg : Settings) (text : String) (v : Quantity) (unknown : Value) :
    Logged EvalReport :=
  report cfg text do
    let f ← formula cfg text unknown
    (f.evaluate cfg v).logged cfg

/-- An evaluation without a value for the variable, which is missed once the text is ready for
it. -/
def evaluateNowhere (cfg : Settings) (text : String) (unknown : Value) : Logged EvalReport :=
  report cfg text do
    let f ← formula cfg text unknown
    let _ ← Noted.ofExcept ((normalize cfg.maxInputLength f.text.toList).mapError .malformed)
    Noted.fail (.missing .point)

/-- Whether a formula has a value where its variable has one, after a look at its parentheses. -/
def check (cfg : Settings) (text : String) (unknown : Value) (probe : Quantity) :
    Logged EvalReport :=
  match unbalancedAt? text.toList with
  | some position =>
    pure (EvalReport.failed s!"Unbalanced parenthesis at position {position}"
      EvalError.openGroup.code)
  | none => evaluate cfg text probe unknown

/-- Points of the curve of a formula. -/
def sample (cfg : Settings) (text : String) (xMin xMax : Float) (steps : Option Int)
    (unknown : Value) : Logged SampleReport :=
  let report : Logged SampleReport := do
    let f ← formula cfg text unknown
    let s ← Samples.take cfg f xMin xMax steps
    return { ok := true, points := s.points, skipped := s.skipped }
  recover report (reporting SampleReport.failed)

/-- A sampling without a number of samples, which is missed once there is a formula. -/
def sampleNowhere (cfg : Settings) (text : String) (unknown : Value) : Logged EvalReport :=
  let report : Logged EvalReport := do
    let _ ← formula cfg text unknown
    Noted.fail (.missing .steps)
  recover report (reporting EvalReport.failed)

/-- The error of a path under which no file can be written. -/
def missingFile (path : String) : String :=
  s!"[Errno 2] No such file or directory: {quote path}"

/-- What follows the last point of a file name, where points at its start do not count. -/
def extension (path : Text) : Text :=
  -- The name of the file is what follows the last slash.
  let name := (path.reverse.takeWhile (· ≠ '/')).reverse.dropWhile (· = '.')
  if name.contains '.' then (name.reverse.takeWhile (· ≠ '.')).reverse else []

/-- The file of an image. A path without an extension gets that of images. -/
def imageFile (path : String) : String :=
  let t := path.toList
  if extension t = [] then String.ofList (t.reverse.dropWhile (· = '.')).reverse ++ ".png" else path

/-- The format of the image under a path, which its extension names in letters of either case. -/
def imageFormat (path : String) : String :=
  String.ofList ((extension (imageFile path).toList).map Char.toLower)

/-- Saves an image of points under a path, if it can be written, or else in a temporary file. -/
def save (around : Surroundings) (text : String) (path : Option String) (s : Samples) :
    Logged PlotAnswer := do
  match (path.map imageFile).filter fun file => !around.canWrite file with
  | none => do
    Noted.note {
      level := .info, topic := .plotting
      message := s!"Saved plot of {text} with {s.points.length} points ({s.skipped} skipped)" }
    return .saved path s.points
  | some file => do
    let message := "Failed to save plot: " ++ missingFile file
    Noted.note {
      level := .error, topic := .plotting, message
      failure := some ⟨"FileNotFoundError", missingFile file⟩ }
    return .report (EvalReport.failed message "IO_ERROR")

/-- Saves an image of points where it is to go. -/
def saveTo (around : Surroundings) (text : String) (s : Samples) :
    Destination → Logged PlotAnswer
  | .temporary => save around text none s
  | .unnamed => Noted.fail (.missing .path)
  | .file path =>
    if imageFormats.contains (imageFormat path) then save around text (some path) s
    else Noted.fail (.imageFormat (imageFormat path))

/-- A picture of a formula, in characters or as an image. -/
def plot (cfg : Settings) (around : Surroundings) (q : PlotRequest) : Logged PlotAnswer :=
  let answer : Logged PlotAnswer := do
    let f ← formula cfg q.text q.unknown
    let s ← Samples.take cfg f q.xMin q.xMax q.samples
    if s.points.isEmpty then
      return .report (EvalReport.failed "Cannot plot: no finite values in range" "NO_POINTS")
    else do
      let w ← Noted.ofExcept ((q.window s.points).mapError .invalid)
      if q.ascii then do
        let g ← Noted.ofExcept (Picture.draw cfg s.points w none none)
        return .report { ok := true, result := some ("ASCII plot:\n" ++ g.text) }
      else saveTo around q.text s q.destination
  recover answer (reporting fun message code => .report (EvalReport.failed message code))

end Answer

/-- The report of a plot, where the result of an image is its path. -/
def PlotAnswer.toReport (around : Surroundings) : PlotAnswer → EvalReport
  | .report r => r
  | .saved path _ => { ok := true, result := some (path.getD around.temporary) }

end FormulaPlot
