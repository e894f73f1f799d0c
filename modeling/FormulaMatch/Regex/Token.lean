import FormulaMatch.Regex.Symbol

/-! The tokens of a regular expression: sets, group brackets, bars and repetitions. -/

namespace FormulaMatch

structure FlagChange where
  ignoreCase : Option Bool := none
  dotAll : Option Bool := none
  deriving DecidableEq, Repr

inductive RegexToken where
  | one (set : CharSet)
  | anyChar
  | textStart
  | textEnd
  | openGroup (change : FlagChange) (name : Option (List Char))
  | closeGroup
  | bar
  | setFlags (change : FlagChange)
  | repeated (least : Nat) (most : Option Nat)
  deriving DecidableEq, Repr

/-- What is being read. Characters and items seen are held last first. -/
inductive RegexScan where
  | between
  /-- After a repetition, which a question mark may make a lazy one. -/
  | quantified (least : Nat) (most : Option Nat)
  /-- After an opening brace. -/
  | count (seen : List Char)
  /-- After `(`. -/
  | groupOpen
  /-- After `(?`. -/
  | groupKind
  /-- After `(?P`. -/
  | groupLetter
  /-- After `(?<` or `(?P<`. -/
  | groupName (seen : List Char)
  /-- After `(?` and some flags. -/
  | groupFlags (seen : List Char)
  /-- After `[`. -/
  | classOpen
  /-- After `[` or `[^` and hyphens, which are items here, as is a closing bracket right away. -/
  | classLead (negated : Bool) (items : List SetItem)
  | classBody (negated : Bool) (items : List SetItem)
  /-- After a symbol that may begin a range. -/
  | classItem (negated : Bool) (items : List SetItem) (symbol : RegexSymbol)
  /-- After such a symbol and a hyphen. -/
  | classRange (negated : Bool) (items : List SetItem) (symbol : RegexSymbol)
  deriving DecidableEq, Repr

/-- The flags that stand before the colon or bracket that ends them. A hyphen switches those after
it off; no flag is given twice, and the hyphen is not last. -/
def FlagChange.ofChars (negated : Bool) (change : FlagChange) :
    List Char → Except RegexError FlagChange
  | [] => .ok change
  | c :: cs =>
    if c == '-' then
      if negated || cs.isEmpty then .error .badFlags else ofChars true change cs
    else if c == 'i' && change.ignoreCase.isNone then
      ofChars negated { change with ignoreCase := some !negated } cs
    else if c == 's' && change.dotAll.isNone then
      ofChars negated { change with dotAll := some !negated } cs
    else .error .badFlags

/-- The number that digits write, with blanks allowed around them; counts stop below 4294967296. -/
def countOfChars (cs : List Char) : Except RegexError Nat :=
  let digits := (cs.dropWhile isBlank).takeWhile Char.isDigit
  let after := (cs.dropWhile isBlank).dropWhile Char.isDigit
  let n := digits.foldl (fun n c => 10 * n + (c.toNat - '0'.toNat)) 0
  if digits.isEmpty || !after.all isBlank || 4294967296 ≤ n then .error .badCount else .ok n

/-- The bounds that stand between braces: one number, or a least and after a comma perhaps a greatest
one. -/
def boundsOfChars (cs : List Char) : Except RegexError (Nat × Option Nat) := do
  let least ← countOfChars (cs.takeWhile (· != ','))
  match cs.dropWhile (· != ',') with
  | [] => .ok (least, some least)
  | [_] => .ok (least, none)
  | _ :: rest =>
    let most ← countOfChars rest
    if least ≤ most then .ok (least, some most) else .error .badCount

/-- A name starts with a letter or an underscore, and full stops, brackets and digits may follow. -/
def isGroupName : List Char → Bool
  | [] => false
  | c :: cs =>
    (c == '_' || isAlphabetic c) &&
      cs.all fun d => d == '_' || d == '.' || d == '[' || d == ']' || isAlphanumeric d

def SetItem.ofSymbol : RegexSymbol → Except RegexError SetItem
  | .plain c | .literal c => .ok (.range c c)
  | .property p negated => .ok (.property p negated)
  | .textStart | .textEnd => .error .unknownEscape

def SetItem.ofEnds : RegexSymbol → RegexSymbol → Except RegexError SetItem
  | .plain c, .plain d | .plain c, .literal d | .literal c, .plain d | .literal c, .literal d =>
    if c ≤ d then .ok (.range c d) else .error .reversedRange
  | _, _ => .error .badRange

namespace RegexScan

def start : RegexSymbol → List RegexToken × RegexScan
  | .literal c => ([.one (.single c)], between)
  | .property p negated => ([.one (.ofProperty p negated)], between)
  | .textStart => ([.textStart], between)
  | .textEnd => ([.textEnd], between)
  | .plain c =>
    if c == '(' then ([], groupOpen)
    else if c == ')' then ([.closeGroup], between)
    else if c == '|' then ([.bar], between)
    else if c == '[' then ([], classOpen)
    else if c == '{' then ([], count [])
    else if c == '*' then ([], quantified 0 none)
    else if c == '+' then ([], quantified 1 none)
    else if c == '?' then ([], quantified 0 (some 1))
    else if c == '.' then ([.anyChar], between)
    else if c == '^' then ([.textStart], between)
    else if c == '$' then ([.textEnd], between)
    else ([.one (.single c)], between)

def startItem (negated : Bool) (items : List SetItem) (symbol : RegexSymbol) :
    Except RegexError (List RegexToken × RegexScan) :=
  if symbol = .plain ']' then .ok ([.one ⟨items.reverse, negated⟩], between)
  else if symbol = .plain '[' then .error .setOperation
  else .ok ([], classItem negated items symbol)

def readFlag (seen : List Char) : RegexSymbol → Except RegexError (List RegexToken × RegexScan)
  | .plain c =>
    if c == ':' then
      (FlagChange.ofChars false {} seen.reverse).map fun change =>
        ([.openGroup change none], between)
    else if c == ')' then
      if seen.isEmpty then .error .nothingToRepeat
      else (FlagChange.ofChars false {} seen.reverse).map fun change => ([.setFlags change], between)
    else .ok ([], groupFlags (c :: seen))
  | _ => .error .badFlags

def startClass (negated : Bool) (items : List SetItem) (symbol : RegexSymbol) :
    Except RegexError (List RegexToken × RegexScan) :=
  if symbol = .plain '-' then .ok ([], classLead negated (.range '-' '-' :: items))
  else if symbol = .plain ']' && items.isEmpty then .ok ([], classBody negated [.range ']' ']'])
  else startItem negated items symbol

def step (symbol : RegexSymbol) : RegexScan → Except RegexError (List RegexToken × RegexScan)
  | between => .ok (start symbol)
  | quantified least most =>
    let token := RegexToken.repeated least most
    if symbol = .plain '?' then .ok ([token], between)
    else .ok (token :: (start symbol).1, (start symbol).2)
  | count seen =>
    match symbol with
    | .plain c =>
      if c == '}' then
        (boundsOfChars seen.reverse).map fun bounds => ([], quantified bounds.1 bounds.2)
      else .ok ([], count (c :: seen))
    | _ => .error .badCount
  | groupOpen =>
    if symbol = .plain '?' then .ok ([], groupKind)
    else .ok (.openGroup {} none :: (start symbol).1, (start symbol).2)
  | groupKind =>
    if symbol = .plain 'P' then .ok ([], groupLetter)
    else if symbol = .plain '<' then .ok ([], groupName [])
    else readFlag [] symbol
  | groupLetter => if symbol = .plain '<' then .ok ([], groupName []) else .error .badFlags
  | groupName seen =>
    match symbol with
    | .plain c =>
      if c == '>' then
        if isGroupName seen.reverse then .ok ([.openGroup {} (some seen.reverse)], between)
        else .error .badGroupName
      else .ok ([], groupName (c :: seen))
    | _ => .error .badGroupName
  | groupFlags seen => readFlag seen symbol
  | classOpen =>
    if symbol = .plain '^' then .ok ([], classLead true []) else startClass false [] symbol
  | classLead negated items => startClass negated items symbol
  | classBody negated items => startItem negated items symbol
  | classItem negated items first =>
    if symbol = .plain '-' && first ≠ .plain '-' then .ok ([], classRange negated items first)
    else if symbol = first && [.plain '-', .plain '&', .plain '~'].contains symbol then
      .error .setOperation
    else do startItem negated ((← SetItem.ofSymbol first) :: items) symbol
  | classRange negated items first =>
    if symbol = .plain ']' then do
      startItem negated (.range '-' '-' :: (← SetItem.ofSymbol first) :: items) symbol
    else if symbol = .plain '-' then .error .setOperation
    else do .ok ([], classBody negated ((← SetItem.ofEnds first symbol) :: items))

def stop : RegexScan → Except RegexError (List RegexToken)
  | between => .ok []
  | quantified least most => .ok [.repeated least most]
  | count _ => .error .unclosedCount
  | groupOpen | groupKind | groupLetter | groupFlags _ => .error .unclosedGroup
  | groupName _ => .error .badGroupName
  | classOpen | classLead _ _ | classBody _ _ | classItem _ _ _ | classRange _ _ _ =>
    .error .unclosedClass

def run (state : RegexScan) : List RegexSymbol → Except RegexError (List RegexToken)
  | [] => state.stop
  | symbol :: symbols =>
    match state.step symbol with
    | .error e => .error e
    | .ok (tokens, next) => (next.run symbols).map fun more => tokens ++ more

end RegexScan

def regexTokens (symbols : List RegexSymbol) : Except RegexError (List RegexToken) :=
  RegexScan.between.run symbols

end FormulaMatch
