import FormulaPlot.Log.Template.Directive

/-!
# Message templates

The message of a record may be a template whose directives, from a percent sign to a letter, give
way to arguments. A directive may name a field of a record, and has flags, a width and a precision.
A width or precision may be an argument too. Two percent signs stand for one.
-/

namespace FormulaPlot

namespace Template

/-- The arguments that are left, and the record whose fields can be named. -/
structure Arguments where
  left : List Value
  fields : Option (List (String × Value)) := none

/-- The next argument. -/
def Arguments.next (args : Arguments) : Except TemplateFault (Value × Arguments) :=
  match args.left with
  | [] => .error .tooFewArguments
  | v :: rest => .ok (v, { args with left := rest })

/-- The name at the start of a text, up to the parenthesis that closes it, and the rest. -/
def fieldName (depth : Nat) : Text → Option (Text × Text)
  | [] => none
  | c :: t =>
    if c = ')' ∧ depth = 0 then some ([], t)
    else
      let depth := if c = '(' then depth + 1 else if c = ')' then depth - 1 else depth
      (fieldName depth t).map fun (name, rest) => (c :: name, rest)

/-- Passes over the name of a field, which becomes the only argument. -/
def named (args : Arguments) (t : Text) : Except TemplateFault (Arguments × Text) :=
  match t with
  | '(' :: t =>
    match args.fields with
    | none => .error .notARecord
    | some fields =>
      match fieldName 0 t with
      | none => .error .incompleteName
      | some (name, rest) =>
        match Value.field? fields (String.ofList name) with
        | none => .error (.noSuchField (String.ofList name))
        | some v => .ok ({ args with left := [v] }, rest)
  | _ => .ok (args, t)

/-- Passes over the flags of a directive. -/
def flags (d : Directive) : Text → Directive × Text
  | [] => (d, [])
  | c :: t =>
    if c = '-' then flags { d with left := true } t
    else if c = '+' then flags { d with plus := true } t
    else if c = ' ' then flags { d with space := true } t
    else if c = '#' then flags { d with alternate := true } t
    else if c = '0' then flags { d with zero := true } t
    else (d, c :: t)

/-- A size at the start of a text, below a limit: digits, or an asterisk for the next argument. The
two faults are those of digits and of an argument past the limit. -/
def sizeAt (limit : Int) (tooBig overflow : TemplateFault) (args : Arguments) (t : Text) :
    Except TemplateFault (Int × Arguments × Text) :=
  match t with
  | '*' :: t => do
    let (v, args) ← args.next
    match v with
    | .int n => if n < -limit ∨ limit ≤ n then .error overflow else .ok (n, args, t)
    | .bool b => .ok (if b then 1 else 0, args, t)
    | _ => .error .notASize
  | _ =>
    let n : Int := Nat.ofDigitChars 10 (t.takeWhile Char.isDigit) 0
    if limit ≤ n then .error tooBig else .ok (n, args, t.dropWhile Char.isDigit)

/-- Passes over the width of a directive. A negative one puts the blanks on the right. -/
def width (d : Directive) (args : Arguments) (t : Text) :
    Except TemplateFault (Directive × Arguments × Text) := do
  let (n, args, t) ← sizeAt (Nat.pow 2 63) .widthTooBig .widthOverflow args t
  return ({ d with width := n.natAbs, left := d.left || n < 0 }, args, t)

/-- Passes over the precision of a directive. A negative one counts as zero. -/
def precision (d : Directive) (args : Arguments) (t : Text) :
    Except TemplateFault (Directive × Arguments × Text) := do
  match t with
  | '.' :: t =>
    let (n, args, t) ← sizeAt (Nat.pow 2 31) .precisionTooBig .precisionOverflow args t
    return ({ d with precision := some n.toNat }, args, t)
  | _ => return (d, args, t)

/-- Passes over the mark of a size of machine words, which means nothing here. -/
def sizeMark : Text → Text
  | c :: t => if c = 'h' ∨ c = 'l' ∨ c = 'L' then t else c :: t
  | [] => []

/-- The text of a directive after its percent sign, the arguments left, and the template left. -/
def directive (length : Nat) (args : Arguments) (t : Text) :
    Except TemplateFault (Text × Arguments × Text) := do
  if t.head? = some '%' then return (['%'], args, t.drop 1)
  let (args, t) ← named args t
  let (d, t) := flags {} t
  let (d, args, t) ← width d args t
  let (d, args, t) ← precision d args t
  match sizeMark t with
  | [] => .error .incomplete
  | letter :: rest => do
    let (v, args) ← args.next
    let text ← convert d letter (length - rest.length - 1) v
    return (text, args, rest)

/-- The text of a template of `length` characters of which `t` is left. Each turn of the recursion
uses up at least one character, so as many turns as there are characters are enough. -/
def expand (length : Nat) : Nat → Arguments → Text → Except TemplateFault Text
  | _, args, [] =>
    if args.left.isEmpty || args.fields.isSome then .ok [] else .error .tooManyArguments
  | 0, _, _ => .ok []
  | turns + 1, args, c :: t =>
    if c = '%' then do
      let (text, args, rest) ← directive length args t
      return text ++ (← expand length turns args rest)
    else do
      return c :: (← expand length turns args t)

/-- The message of a template and its arguments. Without arguments the template is the message, and
a single record gives its fields by name. -/
def render (template : String) (args : List Value) : Except TemplateFault String :=
  let t := template.toList
  match args with
  | [] => .ok template
  | [.record (field :: fields)] =>
    (expand t.length t.length
      ⟨[.record (field :: fields)], some (field :: fields)⟩ t).map String.ofList
  -- A record without fields is an argument like any other.
  | args => (expand t.length t.length ⟨args, none⟩ t).map String.ofList

end Template

end FormulaPlot
