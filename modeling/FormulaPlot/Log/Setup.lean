import FormulaPlot.Log.Record
import FormulaPlot.Settings

/-!
# Logging setup

The log keeps records from a rank on and writes them to standard error, and to a file if it has one.
Levels are named in letters of either case; a name without meaning stands for warnings.
-/

namespace FormulaPlot

/-- Names that are looked up like those of levels but mean something else. -/
inductive LevelFault where
  /-- The layout of log lines. -/
  | layout
  /-- The styles of templates for log lines. -/
  | styles
deriving DecidableEq, Repr

namespace LevelFault

/-- All names that are no levels. -/
def all : List LevelFault := [layout, styles]

/-- The name that is no level. -/
def name : LevelFault → String
  | layout => "BASIC_FORMAT"
  | styles => "_STYLES"

/-- The words for a name that is no level. They show what the name stands for. -/
def message : LevelFault → String
  | layout => "Unknown level: '%(levelname)s:%(name)s:%(message)s'"
  | styles =>
    "Level not an integer or a valid string: \x7b" ++
      "'%': (<class 'logging.PercentStyle'>, '%(levelname)s:%(name)s:%(message)s'), " ++
      "'\x7b': (<class 'logging.StrFormatStyle'>, " ++
      "'\x7blevelname\x7d:\x7bname\x7d:\x7bmessage\x7d'), " ++
      "'$': (<class 'logging.StringTemplateStyle'>, " ++
      "'$\x7blevelname\x7d:$\x7bname\x7d:$\x7bmessage\x7d')\x7d"

end LevelFault

/-- Where and from which rank on records are kept. -/
structure LogSetup where
  rank : Int := 0
  file : Option String := none
deriving DecidableEq, Repr

namespace LogSetup

/-- A letter in upper case. Two letters outside ASCII have an upper case in it. -/
def upperLetter (c : Char) : Char :=
  if c = '\u0131' then 'I' else if c = '\u017f' then 'S' else c.toUpper

/-- The rank of a level by name. A name that is that of no level means warnings, but one that names
something else of the log is at fault. -/
def rankOfName (name : String) : Except LevelFault Int :=
  let upper := String.ofList (name.toList.map upperLetter)
  let levels : List (String × Int) :=
    ("NOTSET", 0) :: ("WARN", 30) :: ("FATAL", 50) :: Level.all.map fun l => (l.name, l.rank)
  match LevelFault.all.find? (·.name == upper) with
  | some fault => .error fault
  | none => .ok ((levels.lookup upper).getD Level.warning.rank)

/-- Settings and setup after logging was set up anew. A trace logs every step of the engine, from
the lowest level on. -/
def configure (cfg : Settings) (level : String) (file : Option String) (trace : Bool) :
    Except LevelFault (Settings × LogSetup) :=
  let file := file.filter (· ≠ "")
  if trace then .ok ({ cfg with traceRewrites := true }, ⟨Level.debug.rank, file⟩)
  else (rankOfName level).map fun rank => (cfg, ⟨rank, file⟩)

end LogSetup

end FormulaPlot
