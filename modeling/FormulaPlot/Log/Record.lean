/-!
# Log records

A record has a level, the name of a log and a message. Logs form a tree below `mineplot`: the level
that is set there decides which records are kept (`Record.isAtLeast`).
-/

namespace FormulaPlot

/-- The name of the log above all others. -/
def rootLog : String := "mineplot"

/-- The parts of the program that keep a log. -/
inductive Topic where
  | api | cli | evaluator | plotting | sampling
deriving DecidableEq, Repr

namespace Topic

/-- The name of a part in the names of logs. -/
def name : Topic → String
  | api => "api"
  | cli => "cli"
  | evaluator => "evaluator"
  | plotting => "plotting"
  | sampling => "sampling"

/-- All parts that keep a log. -/
def all : List Topic := [api, cli, evaluator, plotting, sampling]

end Topic

/-- The name of a log below the root. -/
def logName (name : String) : String := rootLog ++ "." ++ name

/-- The nearest log above one among those that exist, which is the root if there is no other. -/
def parentLog (existing : List String) (name : String) : String :=
  let rec search (parts : List String) : String :=
    match parts with
    | [] => rootLog
    | _ :: rest =>
      let candidate := ".".intercalate rest.reverse
      if existing.contains candidate then candidate else search rest
  search (name.splitOn ".").reverse

/-- How much a record matters. -/
inductive Level where
  | debug | info | warning | error | critical
deriving DecidableEq, Repr

namespace Level

/-- The rank of a level. -/
def rank : Level → Int
  | debug => 10
  | info => 20
  | warning => 30
  | error => 40
  | critical => 50

/-- The name of a level in log lines. -/
def name : Level → String
  | debug => "DEBUG"
  | info => "INFO"
  | warning => "WARNING"
  | error => "ERROR"
  | critical => "CRITICAL"

/-- All levels. -/
def all : List Level := [debug, info, warning, error, critical]

/-- The name of a rank. A rank without a level is named by its number. -/
def nameOfRank (rank : Int) : String :=
  if rank = 0 then "NOTSET"
  else
    match all.find? (·.rank == rank) with
    | some level => level.name
    | none => s!"Level {rank}"

end Level

/-- The error that a record reports, with its kind and its text. -/
structure Failure where
  kind : String
  text : String
deriving DecidableEq, Repr

/-- The line that reports an error. -/
def Failure.line (f : Failure) : String := if f.text = "" then f.kind else f.kind ++ ": " ++ f.text

/-- A record of a log. -/
structure Record where
  level : Level
  topic : Topic
  message : String
  failure : Option Failure := none
deriving DecidableEq, Repr

/-- The line of a record: time, level, log and message. -/
def logLine (stamp : String) (rank : Int) (log message : String) : String :=
  s!"{stamp} [{Level.nameOfRank rank}] {log}: {message}"

namespace Record

/-- Whether a log at a level keeps the record. -/
def isAtLeast (rank : Int) (r : Record) : Bool := rank ≤ r.level.rank

/-- The level, log and message of a record. -/
def summary (r : Record) : String := s!"[{r.level.name}] {logName r.topic.name}: {r.message}"

/-- The lines of a record after the time it was made. The error that it reports follows its
message, after the trail that led to the error. -/
def lines (stamp trail : String) (r : Record) : String :=
  logLine stamp r.level.rank (logName r.topic.name) r.message ++
    match r.failure with
    | none => "\n"
    | some f => "\n" ++ trail ++ f.line ++ "\n"

end Record

end FormulaPlot
