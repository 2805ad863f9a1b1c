import FormulaPlot.Number.Layout
import FormulaPlot.Text.Quoted

/-!
# Values

The values that answers, arguments and log messages are made of. `literal` writes one so that its
kind can be seen and `plain` writes a text as itself.
-/

namespace FormulaPlot

/-- A value of an answer. The fields of a record keep their order. -/
inductive Value where
  | null
  | bool (b : Bool)
  | int (n : Int)
  | real (x : Float)
  | text (s : String)
  | list (items : List Value)
  | record (fields : List (String × Value))

namespace Value

/-- A text, if there is one. -/
def ofText? : Option String → Value
  | none => .null
  | some s => .text s

/-- Everything counts as true except null, false, zero and what is empty. -/
def isTrue : Value → Bool
  | .null => false
  | .bool b => b
  | .int n => n != 0
  | .real x => !(x == 0)
  | .text s => !s.isEmpty
  | .list items => !items.isEmpty
  | .record fields => !fields.isEmpty

mutual

/-- A value in literal notation, with its texts in quotes. -/
def literal : Value → String
  | .null => "None"
  | .bool true => "True"
  | .bool false => "False"
  | .int n => toString n
  | .real x => valueText x
  | .text s => quote s
  | .list items => "[" ++ ", ".intercalate (literals items) ++ "]"
  | .record fields => "\x7b" ++ ", ".intercalate (literalFields fields) ++ "\x7d"

/-- The literals of the items of a list. -/
def literals : List Value → List String
  | [] => []
  | v :: rest => literal v :: literals rest

/-- The literals of the fields of a record. -/
def literalFields : List (String × Value) → List String
  | [] => []
  | (k, v) :: rest => (quote k ++ ": " ++ literal v) :: literalFields rest

end

/-- A value as people read it: a text stands for itself. -/
def plain : Value → String
  | .text s => s
  | v => literal v

/-- The field of a record with a name. -/
def field? (fields : List (String × Value)) (name : String) : Option Value :=
  (fields.find? (·.1 == name)).map (·.2)

end Value

end FormulaPlot
