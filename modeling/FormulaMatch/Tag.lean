import FormulaMatch.Bracket
import FormulaMatch.Character.Alphabetic

/-! Grammatical tags. Matching never looks at them; they are read off a token's text. -/

namespace FormulaMatch

inductive Tag where
  | sequence
  | group
  | letter
  | digit
  | command
  | operator
  | divider
  | openBracket
  | closeBracket
  | function
  deriving DecidableEq, Repr

def Tag.all : List Tag :=
  [.sequence, .group, .letter, .digit, .command, .operator, .divider, .openBracket,
   .closeBracket, .function]

/-- The name of a tag in stored formulas. -/
def Tag.name : Tag → String
  | .sequence => "sequence"
  | .group => "group"
  | .letter => "letter"
  | .digit => "digit"
  | .command => "command"
  | .operator => "operator"
  | .divider => "divider"
  | .openBracket => "open_bracket"
  | .closeBracket => "close_bracket"
  | .function => "function"

/-- The name of a tag in the description of a node. -/
def Tag.title : Tag → String
  | .sequence => "Sequence"
  | .group => "Group"
  | .letter => "Letter"
  | .digit => "Digit"
  | .command => "Command"
  | .operator => "Operator"
  | .divider => "Divider"
  | .openBracket => "OpenBracket"
  | .closeBracket => "CloseBracket"
  | .function => "Function"

def Tag.ofName? (name : String) : Option Tag := all.find? fun tag => tag.name == name

theorem Tag.mem_all (tag : Tag) : tag ∈ all := by cases tag <;> decide

/-- The tokens that end a clause. -/
def isDivider (text : String) : Bool := text == "," || text == ";" || text == "."

/-- The tag of a token. Bars count as opening brackets, and a token that starts with a digit is a
number only if it has digits 0 to 9 alone. -/
def Tag.ofText (text : String) : Tag :=
  match Bracket.ofText? text with
  | some bracket => if bracket.isClosing then .closeBracket else .openBracket
  | none =>
    if isDivider text then .divider
    else match text.toList with
      | [] => .sequence
      | c :: rest =>
        if c == '\\' then .command
        else if c.isDigit then if rest.all Char.isDigit then .digit else .letter
        else if isAlphabetic c then .letter
        else .operator

end FormulaMatch
