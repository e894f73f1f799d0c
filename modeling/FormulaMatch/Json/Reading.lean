import FormulaMatch.Json.Token

/-! Reading a JSON text as one value. -/

namespace FormulaMatch

/-- An array or object being read: the items or members that are complete, last first, and in an
object the name of the value being read. -/
inductive JsonFrame where
  | array (items : List Json)
  | object (members : List (JsonString × Json)) (name : JsonString)

inductive JsonNext where
  | value
  /-- A value, or the end of an empty array. -/
  | firstItem
  /-- A name, or the end of an empty object. -/
  | firstName
  | name (members : List (JsonString × Json))
  | colon (members : List (JsonString × Json)) (name : JsonString)
  /-- A comma, or the end of the innermost array or object, or of the text, after this value. -/
  | after (value : Json)

namespace JsonNext

def startValue (frames : List JsonFrame) : JsonToken → Option (List JsonFrame × JsonNext)
  | .null => some (frames, after .null)
  | .bool b => some (frames, after (.bool b))
  | .number spelling => some (frames, after (.number spelling))
  | .string s => some (frames, after (.string s))
  | .openArray => some (.array [] :: frames, firstItem)
  | .openObject => some (frames, firstName)
  | .closeArray | .closeObject | .colon | .comma => none

/-- Reads one token, with `frames` open, the innermost first. -/
def step (frames : List JsonFrame) : JsonNext → JsonToken → Option (List JsonFrame × JsonNext)
  | value, token => startValue frames token
  | firstItem, token =>
    match token, frames with
    | .closeArray, _ :: outer => some (outer, after (.array []))
    | _, _ => startValue frames token
  | firstName, token =>
    match token with
    | .closeObject => some (frames, after (.object []))
    | .string s => some (frames, colon [] s)
    | _ => none
  | name members, token =>
    match token with
    | .string s => some (frames, colon members s)
    | _ => none
  | colon members s, token =>
    match token with
    | .colon => some (.object members s :: frames, value)
    | _ => none
  | after v, token =>
    match token, frames with
    | .comma, .array items :: outer => some (.array (v :: items) :: outer, value)
    | .comma, .object members s :: outer => some (outer, name ((s, v) :: members))
    | .closeArray, .array items :: outer => some (outer, after (.array (v :: items).reverse))
    | .closeObject, .object members s :: outer =>
      some (outer, after (.object ((s, v) :: members).reverse))
    | _, _ => none

def run (frames : List JsonFrame) (next : JsonNext) : List JsonToken → Option Json
  | [] =>
    match frames, next with
    | [], after v => some v
    | _, _ => none
  | token :: tokens => do
    let (frames, next) ← next.step frames token
    run frames next tokens

end JsonNext

def Json.read (cs : List Char) : Option Json := do
  JsonNext.run [] .value (← jsonTokens cs)

end FormulaMatch
