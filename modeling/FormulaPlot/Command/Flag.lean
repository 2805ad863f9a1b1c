import FormulaPlot.Log.Record
import FormulaPlot.Report.Printed

/-!
# Flags of the command line

The flags, their spellings and the number of values that each takes.
-/

namespace FormulaPlot

/-- The flags of the command line. -/
inductive Flag where
  | help | expression | point | unknown | sample | plot | yRange | steps | ascii | output | format
  | precision | maxDepth | version | logLevel | logFile | trace | healthCheck
deriving DecidableEq, Repr

namespace Flag

/-- The flags in the order in which they are listed. -/
def all : List Flag :=
  [help, expression, point, unknown, sample, plot, yRange, steps, ascii, output, format, precision,
    maxDepth, version, logLevel, logFile, trace, healthCheck]

/-- The spellings of a flag. -/
def names : Flag → List String
  | help => ["-h", "--help"]
  | expression => ["-e", "--eval"]
  | point => ["--at"]
  | unknown => ["--var"]
  | sample => ["--sample"]
  | plot => ["--plot"]
  | yRange => ["--y-range"]
  | steps => ["--steps"]
  | ascii => ["--ascii"]
  | output => ["-o", "--output"]
  | format => ["--format"]
  | precision => ["-p", "--precision"]
  | maxDepth => ["--max-depth"]
  | version => ["-v", "--version"]
  | logLevel => ["--log-level"]
  | logFile => ["--log-file"]
  | trace => ["--trace"]
  | healthCheck => ["--health-check"]

/-- The number of values that a flag takes. -/
def arity : Flag → Nat
  | help | ascii | version | trace | healthCheck => 0
  | sample | plot | yRange => 2
  | _ => 1

/-- Every spelling with its flag. -/
def spellings : List (String × Flag) := all.flatMap fun o => o.names.map fun n => (n, o)

/-- The flag with a spelling. -/
def ofName? (name : String) : Option Flag := spellings.lookup name

/-- All spellings of a flag as messages name it. -/
def label (o : Flag) : String := "/".intercalate o.names

end Flag

/-- How to call the program. -/
def usage : String :=
  "usage: mineplot [-h] [-e EXPRESSION] [--at AT] [--var VAR] [--sample MIN MAX]\n" ++
  "                [--plot MIN MAX] [--y-range YMIN YMAX] [--steps STEPS]\n" ++
  "                [--ascii] [-o OUTPUT] [--format \x7bjson,human\x7d] [-p PRECISION]\n" ++
  "                [--max-depth MAX_DEPTH] [-v]\n" ++
  "                [--log-level \x7bDEBUG,INFO,WARNING,ERROR\x7d] [--log-file LOG_FILE]\n" ++
  "                [--trace] [--health-check]\n"

end FormulaPlot
