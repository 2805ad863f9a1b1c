import FormulaPlot.Command.Error
import FormulaPlot.Text.Numeral

/-!
# What a command line asks for

`Request.parse` reads the words of a command line, the last of repeated flags counting. The first
flag with a wrong value is at fault, and words that no flag takes only where there is none. A value
of two hyphens in the word of its flag is no value: the flag is bare then, and stands for nothing
where its value can be missing.
-/

namespace FormulaPlot

/-- What a command line asks for. -/
structure Request where
  expression : Option String := none
  point : Float := 0
  unknown : Value := .null
  sample : Option (Float × Float) := none
  plot : Option (Float × Float) := none
  yRange : Option (Float × Float) := none
  steps : Option Int := none
  ascii : Bool := false
  output : Option String := none
  format : Format := .human
  precision : Option Int := none
  maxDepth : Option Int := none
  version : Bool := false
  logLevel : Level := .warning
  logFile : Option String := none
  trace : Bool := false
  healthCheck : Bool := false
  /-- The flags that are given without the value that they take. -/
  bare : List Flag := []

/-- A command line asks for help or for something to be done. -/
inductive Parsed where
  | help
  | request (r : Request)

namespace Request

/-- The levels that the command line offers. -/
def levels : List Level := [.debug, .info, .warning, .error]

/-- A double as the value of a flag. -/
def float (o : Flag) (s : String) : Except ArgumentError Float :=
  match Numeral.float? s with
  | some x => .ok x
  | none => .error (.badNumber o "float" s)

/-- A whole number as the value of a flag. -/
def integer (o : Flag) (s : String) : Except ArgumentError Int :=
  (Numeral.integer? s).mapError fun _ => .badNumber o "int" s

/-- One of several choices by name. -/
def choice {α : Type} (o : Flag) (choices : List α) (name : α → String) (s : String) :
    Except ArgumentError α :=
  match choices.find? (name · == s) with
  | some a => .ok a
  | none => .error (.badChoice o s (choices.map name))

/-- Two doubles as the values of a flag. -/
def interval (o : Flag) (low high : String) : Except ArgumentError (Option (Float × Float)) := do
  let low ← float o low
  let high ← float o high
  return some (low, high)

/-- A request with a flag and its values. Help leaves it as it is. -/
def set (r : Request) (o : Flag) (values : List String) : Except ArgumentError Request :=
  let r := { r with bare := r.bare.erase o }
  match o, values with
  | .ascii, [] => .ok { r with ascii := true }
  | .version, [] => .ok { r with version := true }
  | .trace, [] => .ok { r with trace := true }
  | .healthCheck, [] => .ok { r with healthCheck := true }
  | .expression, [s] => .ok { r with expression := some s }
  | .unknown, [s] => .ok { r with unknown := .text s }
  | .output, [s] => .ok { r with output := some s }
  | .logFile, [s] => .ok { r with logFile := some s }
  | .point, [s] => (float o s).map fun x => { r with point := x }
  | .steps, [s] => (integer o s).map fun n => { r with steps := some n }
  | .precision, [s] => (integer o s).map fun n => { r with precision := some n }
  | .maxDepth, [s] => (integer o s).map fun n => { r with maxDepth := some n }
  | .format, [s] => (choice o Format.all Format.name s).map fun f => { r with format := f }
  | .logLevel, [s] => (choice o levels Level.name s).map fun l => { r with logLevel := l }
  | .sample, [low, high] => (interval o low high).map fun i => { r with sample := i }
  | .plot, [low, high] => (interval o low high).map fun i => { r with plot := i }
  | .yRange, [low, high] => (interval o low high).map fun i => { r with yRange := i }
  | _, _ => .ok r

/-- A request with a flag that lacks its value. A value that was given before is forgotten, and the
variable is an empty list, which is no character. -/
def setBare (r : Request) (o : Flag) : Request :=
  let r := { r with bare := o :: r.bare.erase o }
  match o with
  | .expression => { r with expression := none }
  | .unknown => { r with unknown := .list [] }
  | .output => { r with output := none }
  | .logFile => { r with logFile := none }
  | .steps => { r with steps := none }
  | .precision => { r with precision := none }
  | .maxDepth => { r with maxDepth := none }
  | .format => { r with format := .human }
  | _ => r

/-- Whether a flag lacks its value. -/
def isBare (r : Request) (o : Flag) : Bool := r.bare.contains o

/-- The flags of one word. -/
structure Bundle where
  /-- The flags before the last one, which take no value. -/
  flags : List Flag
  /-- The flag that ends the word. -/
  last : Flag
  /-- The value attached to the last flag. -/
  value : Option Text

/-- A flag of one letter and the text behind it in its word. -/
def bundleShort (o : Flag) : Text → Except ArgumentError Bundle
  | [] => if o.arity = 0 then .error (.ignored o []) else .ok ⟨[], o, some []⟩
  | c :: t =>
    if o.arity ≠ 0 then .ok ⟨[], o, some (c :: t)⟩
    else
      -- A flag without value lets the next letter be a flag.
      match Flag.ofName? (String.ofList ['-', c]) with
      | none => .error (.ignored o (c :: t))
      | some next =>
        let bundle := if t = [] then .ok ⟨[], next, none⟩ else bundleShort next t
        bundle.map fun b => { b with flags := o :: b.flags }

/-- The flags of a word that begins with a flag. -/
def bundle (o : Flag) : Attached → Except ArgumentError Bundle
  | .nothing => .ok ⟨[], o, none⟩
  | .toShort t => bundleShort o t
  | .toLong t => if o.arity = 0 then .error (.ignored o t) else .ok ⟨[], o, some t⟩

/-- The values of the flag that ends a word, and the tokens after them. A value of two hyphens in
the same word is none. -/
def valuesOf (o : Flag) (attached : Option Text) (tokens : List Token) :
    Except ArgumentError (List String × List Token) :=
  match attached with
  | some t =>
    if o.arity = 1 then .ok (if t = ['-', '-'] then [] else [String.ofList t], tokens)
    else .error (.expected o)
  | none =>
    let values := (tokens.take o.arity).filterMap fun
      | .value word => some word
      | _ => none
    if values.length = o.arity then .ok (values, tokens.drop o.arity) else .error (.expected o)

/-- A request with several flags and their values, or help if one of them asks for it. -/
def setAll (r : Request) : List (Flag × List String) → Except ArgumentError Parsed
  | [] => .ok (.request r)
  | (o, values) :: rest =>
    if o = .help then .ok .help
    else if o.arity = 1 ∧ values = [] then setAll (setBare r o) rest
    else do
      let r ← set r o values
      setAll r rest

/-- The values of a flag are taken from the tokens after it. -/
theorem length_of_valuesOf {o : Flag} {attached : Option Text} {tokens rest : List Token}
    {values : List String} (h : valuesOf o attached tokens = .ok (values, rest)) :
    rest.length ≤ tokens.length := by
  unfold valuesOf at h
  split at h
  · split at h <;> cases h
    exact Nat.le_refl _
  · dsimp only at h
    split at h <;> cases h
    simp

/-- Reads tokens into a request, which has the flags read before; `extra` are the words that no
flag took, the last one first. -/
def collect (r : Request) (extra : List String) (tokens : List Token) :
    Except ArgumentError Parsed :=
  match tokens with
  | [] => if extra.isEmpty then .ok (.request r) else .error (.unrecognized extra.reverse)
  | .flag o attached :: rest =>
    match bundle o attached with
    | .error e => .error e
    | .ok b =>
      match _h : valuesOf b.last b.value rest with
      | .error e => .error e
      | .ok (values, rest) =>
        match setAll r (b.flags.map (fun o => (o, [])) ++ [(b.last, values)]) with
        | .error e => .error e
        | .ok .help => .ok .help
        | .ok (.request r) => collect r extra rest
  | token :: rest => collect r (token.word :: extra) rest
termination_by tokens.length
decreasing_by
  · have := length_of_valuesOf _h
    simp only [List.length_cons]
    omega
  · simp

/-- What the words of a command line ask for. -/
def parse (words : List String) : Except ArgumentError Parsed :=
  match Token.ofWords words with
  | .error a => .error (.ambiguous a)
  | .ok tokens => collect {} [] tokens

end Request

end FormulaPlot
