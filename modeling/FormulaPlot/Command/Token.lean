import FormulaPlot.Command.Flag
import FormulaPlot.Text.Basic
import FormulaPlot.Text.DecimalDigit

/-!
# Tokens of the command line

Each word of a command line is a flag, perhaps with a text attached to it, an unknown flag or a
value. Long flags may be cut short where no other begins the same. A word that begins with a hyphen
is a value only if it is a lone hyphen, has a blank in it or looks like a negative number. After
the word `--` all words are values.
-/

namespace FormulaPlot

/-- What is attached to a flag in the same word. -/
inductive Attached where
  | nothing
  /-- A text behind a flag of one letter: its value, or more flags of one letter. -/
  | toShort (t : Text)
  /-- A value behind a long flag and an equals sign. -/
  | toLong (t : Text)
deriving DecidableEq, Repr

/-- A word of a command line. -/
inductive Token where
  /-- A value, or a word after the end of flags. -/
  | value (word : String)
  /-- The word that ends the flags. -/
  | endOfFlags
  /-- A flag and what is attached to it. -/
  | flag (o : Flag) (attached : Attached)
  /-- A flag that does not exist. -/
  | unknownFlag (word : String)
deriving DecidableEq, Repr

/-- A word that begins more than one flag. -/
structure Ambiguity where
  word : String
  candidates : List String
deriving DecidableEq, Repr

namespace Token

open DecimalDigit

/-- Whether a spelling is a hyphen and a letter. -/
def isShort (name : Text) : Bool := name.getD 1 '-' != '-'

/-- Whether a word is a hyphen and digits, perhaps with digits after a point. One line end after it
is passed over. -/
def isNegativeNumber (word : Text) : Bool :=
  match word with
  | '-' :: t =>
    let t := if t.getLast? = some '\n' then t.dropLast else t
    match t.dropWhile isDecimal with
    | [] => !t.isEmpty
    | '.' :: fraction => !fraction.isEmpty && fraction.all isDecimal
    | _ => false
  | _ => false

/-- The flags that a word can stand for, with the spelling of each and what is attached to it. -/
def candidates (word : Text) : List (String × Flag × Attached) :=
  if isShort word then
    (Flag.spellings.filter fun (n, _) => n.toList = word.take 2).map fun (n, o) =>
      (n, o, .toShort (word.drop 2))
  else
    let (start, attached) : Text × Attached :=
      match splitAtChar? '=' word with
      | some (start, given) => (start, Attached.toLong given)
      | none => (word, .nothing)
    (Flag.spellings.filter fun (n, _) => start.isPrefixOf n.toList).map fun (n, o) =>
      (n, o, attached)

/-- The flag that a word spells in full, perhaps with a text behind an equals sign. -/
def spelled? (word : Text) : Option Token :=
  match Flag.ofName? (String.ofList word) with
  | some o => some (flag o .nothing)
  | none =>
    match splitAtChar? '=' word with
    | none => none
    | some (name, given) =>
      (Flag.ofName? (String.ofList name)).map fun o =>
        flag o (if isShort name then .toShort given else .toLong given)

/-- What a word is, before the end of flags. -/
def ofWord (word : String) : Except Ambiguity Token :=
  let t := word.toList
  if t.head? ≠ some '-' then .ok (value word)
  else
    match spelled? t with
    | some token => .ok token
    | none =>
      if t.length = 1 then .ok (value word)
      else
        match candidates t with
        | [(_, o, attached)] => .ok (flag o attached)
        -- No flag begins like the word, so it is a value if it looks like one.
        | [] =>
          if isNegativeNumber t || t.contains ' ' then .ok (value word)
          else .ok (unknownFlag word)
        | several => .error ⟨word, several.map (·.1)⟩

/-- What the words of a command line are. -/
def ofWords : List String → Except Ambiguity (List Token)
  | [] => .ok []
  | word :: rest =>
    if word = "--" then .ok (endOfFlags :: rest.map value)
    else do
      let token ← ofWord word
      let tokens ← ofWords rest
      return token :: tokens

/-- The word of a token that no flag takes. -/
def word : Token → String
  | value word => word
  | endOfFlags => "--"
  | unknownFlag word => word
  | flag o _ => o.label

end Token

end FormulaPlot
