import FormulaPlot.Answer
import FormulaPlot.Log.Setup

/-!
# Sessions

A session keeps what outlives a request: the settings, the setup of the log, formulas by name and
the files that were written. A record that the log keeps is appended to the log's file.
-/

namespace FormulaPlot

/-- The contents of a file that was written. -/
inductive FileContents where
  | records (rs : List Record)
  | image (points : List Point)

/-- What outlives a request. -/
structure Session where
  settings : Settings := {}
  log : LogSetup := {}
  /-- The names of the logs that there are. -/
  logs : List String := Topic.all.map fun t => logName t.name
  formulas : List (String × Formula) := []
  files : List (String × FileContents) := []

namespace Session

/-- A list of pairs in which a key has a value. A new key comes last. -/
def put {α : Type} (entries : List (String × α)) (key : String) (a : α) : List (String × α) :=
  if entries.any (·.1 == key) then
    entries.map fun e => if e.1 == key then (key, a) else e
  else entries ++ [(key, a)]

/-- Appends records to a log file, which comes into being even without any. -/
def append (files : List (String × FileContents)) (name : String) (rs : List Record) :
    List (String × FileContents) :=
  match files.lookup name with
  | some (.records old) => put files name (.records (old ++ rs))
  | _ => put files name (.records rs)

/-- The records that the log keeps. -/
def kept (s : Session) (rs : List Record) : List Record := rs.filter (·.isAtLeast s.log.rank)

/-- A session after records were made. -/
def record (s : Session) (rs : List Record) : Session :=
  match s.log.file with
  | none => s
  | some name => { s with files := append s.files name (s.kept rs) }

/-- A session after logging was set up anew, unless the level has a name that is no level. -/
def configureLog (s : Session) (level : String) (file : Option String) (trace : Bool) :
    Except LevelFault Session :=
  (LogSetup.configure s.settings level file trace).map fun (settings, log) =>
    Session.record { s with settings, log } []

/-- A session after a plot, whose image is a file. -/
def saveImage (s : Session) (around : Surroundings) : PlotAnswer → Session
  | .report _ => s
  | .saved path points =>
    let file := (path.map Answer.imageFile).getD around.temporary
    { s with files := put s.files file (.image points) }

/-- The nearest log above the log with a name, and a session in which there is that log. -/
def openLog (s : Session) (name : String) : String × Session :=
  (parentLog s.logs (logName name), { s with logs := logName name :: s.logs })

/-- A session with a formula under a name. -/
def define (s : Session) (name : String) (f : Formula) : Session :=
  { s with formulas := put s.formulas name f }

end Session

end FormulaPlot
