import FormulaMatch.Json.Token

/-! The compact written form of a JSON value, without blanks. Quotes, backslashes and characters
below U+0020 are escaped, all other characters stand for themselves. -/

namespace FormulaMatch

def hexDigit (n : Nat) : Char := if n < 10 then Char.ofNat (48 + n) else Char.ofNat (87 + n)

def unicodeEscape (code : Nat) : List Char :=
  ['\\', 'u', hexDigit (code / 0x1000 % 16), hexDigit (code / 0x100 % 16),
    hexDigit (code / 0x10 % 16), hexDigit (code % 16)]

def JsonUnit.written : JsonUnit → List Char
  | .surrogate code => unicodeEscape code
  | .char c =>
    match c with
    | '"' => ['\\', '"']
    | '\\' => ['\\', '\\']
    | '\x08' => ['\\', 'b']
    | '\x0c' => ['\\', 'f']
    | '\n' => ['\\', 'n']
    | '\r' => ['\\', 'r']
    | '\t' => ['\\', 't']
    | c => if c.toNat < 0x20 then unicodeEscape c.toNat else [c]

def JsonString.written (units : JsonString) : List Char :=
  '"' :: (units.flatMap JsonUnit.written ++ ['"'])

def JsonToken.written : JsonToken → List Char
  | openArray => ['[']
  | closeArray => [']']
  | openObject => ['{']
  | closeObject => ['}']
  | colon => [':']
  | comma => [',']
  | null => "null".toList
  | bool b => if b then "true".toList else "false".toList
  | number spelling => spelling
  | string units => units.written

namespace Json

mutual

def tokens : Json → List JsonToken
  | .null => [.null]
  | .bool b => [.bool b]
  | .number spelling => [.number spelling]
  | .string units => [.string units]
  | .array [] => [.openArray, .closeArray]
  | .array (v :: vs) => .openArray :: (tokens v ++ itemTokens vs)
  | .object [] => [.openObject, .closeObject]
  | .object ((name, v) :: members) =>
    .openObject :: .string name :: .colon :: (tokens v ++ memberTokens members)

/-- The tokens of the items after the first, and of the end of the array. -/
def itemTokens : List Json → List JsonToken
  | [] => [.closeArray]
  | v :: vs => .comma :: (tokens v ++ itemTokens vs)

def memberTokens : List (JsonString × Json) → List JsonToken
  | [] => [.closeObject]
  | (name, v) :: members =>
    .comma :: .string name :: .colon :: (tokens v ++ memberTokens members)

end

def written (v : Json) : List Char := v.tokens.flatMap JsonToken.written

end Json

end FormulaMatch
