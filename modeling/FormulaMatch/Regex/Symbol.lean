import FormulaMatch.Regex.CharSet

/-! The symbols of a regular expression: its characters, with every backslash joined to what it
escapes. -/

namespace FormulaMatch

inductive RegexError where
  | trailingBackslash
  | unknownEscape
  | unknownProperty
  | unclosedGroup
  | unopenedGroup
  | unclosedClass
  | unclosedCount
  | badCount
  | nothingToRepeat
  | reversedRange
  | badRange
  | badFlags
  | badGroupName
  | repeatedGroupName
  | setOperation
  deriving DecidableEq, Repr

def RegexError.message : RegexError → String
  | trailingBackslash => "a backslash has nothing to escape"
  | unknownEscape => "unknown escape"
  | unknownProperty => "unknown character property"
  | unclosedGroup => "unclosed group"
  | unopenedGroup => "unopened group"
  | unclosedClass => "unclosed character class"
  | unclosedCount => "unclosed repetition count"
  | badCount => "invalid repetition count"
  | nothingToRepeat => "a repetition has nothing to repeat"
  | reversedRange => "the first character of a range comes after the last"
  | badRange => "the ends of a range have to be characters"
  | badFlags => "invalid flags"
  | badGroupName => "invalid group name"
  | repeatedGroupName => "a group name is used twice"
  | setOperation => "operations on character classes are not supported"

/-- A plain character may have a meaning of its own, a literal one stands for itself. -/
inductive RegexSymbol where
  | plain (c : Char)
  | literal (c : Char)
  | property (property : CharProperty) (negated : Bool)
  | textStart
  | textEnd
  deriving DecidableEq, Repr

inductive EscapeState where
  | none
  | backslash
  /-- After `\p` or `\P`. -/
  | propertyMark (negated : Bool)
  /-- Inside the braces of a property name, whose characters are held last first. -/
  | propertyName (negated : Bool) (seen : List Char)
  deriving DecidableEq, Repr

def RegexSymbol.ofEscape (c : Char) : Except RegexError RegexSymbol :=
  match c with
  | 'd' => .ok (.property .decimal false)
  | 'D' => .ok (.property .decimal true)
  | 's' => .ok (.property .blank false)
  | 'S' => .ok (.property .blank true)
  | 'w' => .ok (.property .word false)
  | 'W' => .ok (.property .word true)
  | 'A' => .ok .textStart
  | 'z' => .ok .textEnd
  | 'a' => .ok (.literal '\x07')
  | 'f' => .ok (.literal '\x0c')
  | 'n' => .ok (.literal '\n')
  | 'r' => .ok (.literal '\r')
  | 't' => .ok (.literal '\t')
  | 'v' => .ok (.literal '\x0b')
  | _ =>
    if isAscii c && !c.isAlphanum && c != '<' && c != '>' then .ok (.literal c)
    else .error .unknownEscape

def RegexSymbol.ofPropertyName (name : List Char) (negated : Bool) :
    Except RegexError RegexSymbol :=
  match CharProperty.ofName? name with
  | some p => .ok (.property p negated)
  | none => .error .unknownProperty

def EscapeState.step (c : Char) : EscapeState → Except RegexError (Option RegexSymbol × EscapeState)
  | none => if c == '\\' then .ok (.none, backslash) else .ok (some (.plain c), none)
  | backslash =>
    if c == 'p' then .ok (.none, propertyMark false)
    else if c == 'P' then .ok (.none, propertyMark true)
    else (RegexSymbol.ofEscape c).map fun s => (some s, none)
  | propertyMark negated =>
    if c == '{' then .ok (.none, propertyName negated [])
    else (RegexSymbol.ofPropertyName [c] negated).map fun s => (some s, none)
  | propertyName negated seen =>
    if c == '}' then (RegexSymbol.ofPropertyName seen.reverse negated).map fun s => (some s, none)
    else .ok (.none, propertyName negated (c :: seen))

def EscapeState.run (state : EscapeState) : List Char → Except RegexError (List RegexSymbol)
  | [] => if state = none then .ok [] else .error .trailingBackslash
  | c :: cs =>
    match state.step c with
    | .error e => .error e
    | .ok (symbol, next) => (next.run cs).map fun symbols => symbol.toList ++ symbols

def regexSymbols (cs : List Char) : Except RegexError (List RegexSymbol) := EscapeState.none.run cs

end FormulaMatch
