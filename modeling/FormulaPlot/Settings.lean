import FormulaPlot.Text.Numeral

/-!
# Settings

The limits of the engine and the defaults of sampling, plotting and display.
`Settings.ofEnvironment` reads them from variables whose names begin with `MINEPLOT_`.
-/

namespace FormulaPlot

/-- What can be adjusted. -/
structure Settings where
  /-- The most characters that a formula may have. -/
  maxInputLength : Int := 10000
  /-- The most levels that groups and calls may be nested. -/
  maxNestingDepth : Int := 64
  /-- The variable of a formula that names none. -/
  defaultVariable : String := "x"
  /-- The number of samples where none is asked for. -/
  defaultSamples : Int := 100
  /-- The decimal places of sampled `x`. -/
  sampleRoundingDigits : Int := 5
  /-- The significant digits of displayed values. -/
  outputPrecision : Int := 12
  /-- The height of a picture in characters. -/
  asciiRows : Int := 20
  /-- The width of a picture in characters. -/
  asciiCols : Int := 60
  /-- Whether the steps of the engine are logged. -/
  traceRewrites : Bool := false
deriving DecidableEq, Repr

namespace Settings

/-- The values of environment variables by name. -/
abbrev Environment := List (String × String)

/-- The variables of the environment that are read. -/
def environmentNames : List String :=
  ["MAX_INPUT_LENGTH", "MAX_NESTING_DEPTH", "DEFAULT_VARIABLE", "DEFAULT_SAMPLES",
    "SAMPLE_ROUNDING_DIGITS", "OUTPUT_PRECISION", "ASCII_ROWS", "ASCII_COLS",
    "TRACE_REWRITES"].map ("MINEPLOT_" ++ ·)

/-- A whole number from the environment, or else the default. -/
def integerFrom (env : Environment) (name : String) (default : Int) : Except NumeralFault Int :=
  match env.lookup ("MINEPLOT_" ++ name) with
  | none => .ok default
  | some text => Numeral.integer? text

/-- The settings under an environment. The first variable that is no whole number is at fault. -/
def ofEnvironment (env : Environment) : Except NumeralFault Settings := do
  let base : Settings := {}
  let maxInputLength ← integerFrom env "MAX_INPUT_LENGTH" base.maxInputLength
  let maxNestingDepth ← integerFrom env "MAX_NESTING_DEPTH" base.maxNestingDepth
  let defaultSamples ← integerFrom env "DEFAULT_SAMPLES" base.defaultSamples
  let sampleRoundingDigits ← integerFrom env "SAMPLE_ROUNDING_DIGITS" base.sampleRoundingDigits
  let outputPrecision ← integerFrom env "OUTPUT_PRECISION" base.outputPrecision
  let asciiRows ← integerFrom env "ASCII_ROWS" base.asciiRows
  let asciiCols ← integerFrom env "ASCII_COLS" base.asciiCols
  let trace := (env.lookup "MINEPLOT_TRACE_REWRITES").getD "false"
  return {
    maxInputLength, maxNestingDepth, defaultSamples, sampleRoundingDigits, outputPrecision
    asciiRows, asciiCols
    defaultVariable := (env.lookup "MINEPLOT_DEFAULT_VARIABLE").getD base.defaultVariable
    traceRewrites := trace.toList.map Char.toLower == "true".toList }

end Settings

end FormulaPlot
