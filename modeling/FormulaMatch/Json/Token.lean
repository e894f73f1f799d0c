import FormulaMatch.Json.Basic

/-! The tokens of a JSON text: its punctuation, its words and numbers, and its strings. -/

namespace FormulaMatch

inductive JsonToken where
  | openArray
  | closeArray
  | openObject
  | closeObject
  | colon
  | comma
  | null
  | bool (b : Bool)
  | number (spelling : List Char)
  | string (units : JsonString)
  deriving DecidableEq, Repr

/-- An element of a string before surrogates are joined: a character, or the code unit of an
escape. -/
inductive CodeUnit where
  | char (c : Char)
  | unit (code : Nat)
  deriving DecidableEq, Repr

/-- The token being read. Characters and units seen are held last first. -/
inductive JsonScan where
  | between
  | word (seen : List Char)
  | number (seen : List Char)
  | string (seen : List CodeUnit)
  | escape (seen : List CodeUnit)
  /-- In the four digits of an escape: how many are missing, and the value of the others. -/
  | hex (seen : List CodeUnit) (missing value : Nat)
  deriving DecidableEq, Repr

def isJsonBlank (c : Char) : Bool := c == ' ' || c == '\t' || c == '\n' || c == '\r'

def isNumberChar (c : Char) : Bool :=
  c.isDigit || c == '-' || c == '+' || c == '.' || c == 'e' || c == 'E'

def hexValue? (c : Char) : Option Nat :=
  if c.isDigit then some (c.toNat - '0'.toNat)
  else if 'a' ≤ c && c ≤ 'f' then some (c.toNat - 'a'.toNat + 10)
  else if 'A' ≤ c && c ≤ 'F' then some (c.toNat - 'A'.toNat + 10)
  else none

def isHighSurrogate (code : Nat) : Bool := 0xD800 ≤ code && code < 0xDC00

def isLowSurrogate (code : Nat) : Bool := 0xDC00 ≤ code && code < 0xE000

def JsonUnit.ofCode (code : Nat) : JsonUnit :=
  if isHighSurrogate code || isLowSurrogate code then .surrogate code else .char (Char.ofNat code)

/-- Joins every high surrogate with the low one right after it. -/
def joinSurrogates : List CodeUnit → JsonString
  | [] => []
  | .char c :: rest => .char c :: joinSurrogates rest
  | .unit high :: .unit low :: rest =>
    if isHighSurrogate high && isLowSurrogate low then
      .char (Char.ofNat (0x10000 + (high - 0xD800) * 0x400 + (low - 0xDC00))) :: joinSurrogates rest
    else JsonUnit.ofCode high :: joinSurrogates (.unit low :: rest)
  | .unit code :: rest => JsonUnit.ofCode code :: joinSurrogates rest

def isDigits (cs : List Char) : Bool := !cs.isEmpty && cs.all Char.isDigit

/-- Whether a number may end in `cs`: nothing, or an `e` and a perhaps signed exponent. -/
def isExponent : List Char → Bool
  | [] => true
  | c :: cs =>
    (c == 'e' || c == 'E') &&
      match cs with
      | d :: ds => if d == '+' || d == '-' then isDigits ds else isDigits cs
      | [] => false

/-- A number has an optional minus, an integer without leading zeros, and perhaps a fraction and an
exponent. -/
def isJsonNumber (spelling : List Char) : Bool :=
  let unsigned := if spelling.head? == some '-' then spelling.drop 1 else spelling
  let whole := unsigned.takeWhile Char.isDigit
  let after := unsigned.dropWhile Char.isDigit
  (whole == ['0'] || (isDigits whole && whole.head? != some '0')) &&
    if after.head? == some '.' then
      let fraction := (after.drop 1).takeWhile Char.isDigit
      isDigits fraction && isExponent ((after.drop 1).dropWhile Char.isDigit)
    else isExponent after

def JsonToken.ofWord? (word : List Char) : Option JsonToken :=
  if word = "null".toList then some .null
  else if word = "true".toList then some (.bool true)
  else if word = "false".toList then some (.bool false)
  else none

def JsonToken.ofNumber? (spelling : List Char) : Option JsonToken :=
  if isJsonNumber spelling then some (.number spelling) else none

namespace JsonScan

def start (c : Char) : Option (List JsonToken × JsonScan) :=
  if isJsonBlank c then some ([], between)
  else if c == '[' then some ([.openArray], between)
  else if c == ']' then some ([.closeArray], between)
  else if c == '{' then some ([.openObject], between)
  else if c == '}' then some ([.closeObject], between)
  else if c == ':' then some ([.colon], between)
  else if c == ',' then some ([.comma], between)
  else if c == '"' then some ([], string [])
  else if c.isDigit || c == '-' then some ([], number [c])
  else if c.isLower then some ([], word [c])
  else none

def startAfter (token : Option JsonToken) (c : Char) : Option (List JsonToken × JsonScan) := do
  let (tokens, next) ← start c
  some ((← token) :: tokens, next)

def escaped? (c : Char) : Option Char :=
  [('"', '"'), ('\\', '\\'), ('/', '/'), ('b', '\x08'), ('f', '\x0c'), ('n', '\n'), ('r', '\r'),
   ('t', '\t')].lookup c

/-- The tokens that `c` completes, and `none` if no JSON text goes on with `c`. -/
def step (c : Char) : JsonScan → Option (List JsonToken × JsonScan)
  | between => start c
  | word seen =>
    if c.isLower then some ([], word (c :: seen)) else startAfter (JsonToken.ofWord? seen.reverse) c
  | number seen =>
    if isNumberChar c then some ([], number (c :: seen))
    else startAfter (JsonToken.ofNumber? seen.reverse) c
  | string seen =>
    if c == '"' then some ([.string (joinSurrogates seen.reverse)], between)
    else if c == '\\' then some ([], escape seen)
    else if c.toNat < 0x20 then none
    else some ([], string (.char c :: seen))
  | escape seen =>
    if c == 'u' then some ([], hex seen 4 0)
    else (escaped? c).map fun d => ([], string (.char d :: seen))
  | hex seen missing value =>
    (hexValue? c).map fun digit =>
      let value := 16 * value + digit
      if missing ≤ 1 then ([], string (.unit value :: seen)) else ([], hex seen (missing - 1) value)

def stop : JsonScan → Option (List JsonToken)
  | between => some []
  | word seen => (JsonToken.ofWord? seen.reverse).map fun token => [token]
  | number seen => (JsonToken.ofNumber? seen.reverse).map fun token => [token]
  | string _ | escape _ | hex _ _ _ => none

def run (state : JsonScan) : List Char → Option (List JsonToken)
  | [] => state.stop
  | c :: cs => do
    let (tokens, next) ← state.step c
    let more ← next.run cs
    some (tokens ++ more)

end JsonScan

def jsonTokens (cs : List Char) : Option (List JsonToken) := JsonScan.between.run cs

end FormulaMatch
