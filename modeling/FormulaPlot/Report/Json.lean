import FormulaPlot.Text.Quoted
import FormulaPlot.Value

/-!
# Values in JSON

`Json.lines` writes a value over several lines, each level indented by two more spaces. Characters
outside ASCII stand for themselves. NaN and the infinities are written by name, which the standard
does not allow.
-/

namespace FormulaPlot.Json

/-- One character of a text. -/
def escape (c : Char) : List Char :=
  if c = '\x22' then ['\\', '\x22']
  else if c = '\\' then ['\\', '\\']
  else if c = '\n' then ['\\', 'n']
  else if c = '\r' then ['\\', 'r']
  else if c = '\t' then ['\\', 't']
  else if c = '\x08' then ['\\', 'b']
  else if c = '\x0c' then ['\\', 'f']
  else if c.toNat < 0x20 then '\\' :: 'u' :: Quoted.hexDigits 4 c.toNat
  else [c]

/-- A text between double quotes. -/
def text (s : String) : String :=
  String.ofList ('\x22' :: s.toList.flatMap escape ++ ['\x22'])

/-- A double. -/
def number (x : Float) : String :=
  match Shape.ofFloat x with
  | .nan => "NaN"
  | .infinite false => "Infinity"
  | .infinite true => "-Infinity"
  | .finite _ _ => valueText x

/-- A line end and the indentation of a level. -/
def newline (level : Nat) : String := String.ofList ('\n' :: List.replicate (2 * level) ' ')

/-- Items between brackets, each on a line of its own. -/
def block (left right : String) (level : Nat) (items : List String) : String :=
  if items.isEmpty then left ++ right
  else
    left ++ newline (level + 1) ++ ("," ++ newline (level + 1)).intercalate items ++
      newline level ++ right

mutual

/-- A value at a level of indentation. -/
def lines (level : Nat) : Value → String
  | .null => "null"
  | .bool true => "true"
  | .bool false => "false"
  | .int n => toString n
  | .real x => number x
  | .text s => text s
  | .list items => block "[" "]" level (itemLines (level + 1) items)
  | .record fields => block "\x7b" "\x7d" level (fieldLines (level + 1) fields)

/-- The items of a list. -/
def itemLines (level : Nat) : List Value → List String
  | [] => []
  | v :: rest => lines level v :: itemLines level rest

/-- The fields of a record. -/
def fieldLines (level : Nat) : List (String × Value) → List String
  | [] => []
  | (k, v) :: rest => (text k ++ ": " ++ lines level v) :: fieldLines level rest

end

end FormulaPlot.Json
