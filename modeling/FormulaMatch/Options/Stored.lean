import FormulaMatch.Options
import FormulaMatch.Json.Reading
import FormulaMatch.Json.Writing

/-! Options as JSON: an object of three switches, of which any may be missing, or an array of their
values in order. -/

namespace FormulaMatch.Options

def toJson (options : Options) : Json :=
  .object
    [(JsonString.ofText "allow_leading_tokens", .bool options.leading),
     (JsonString.ofText "allow_following_tokens", .bool options.following),
     (JsonString.ofText "ignore_bracket_logic", .bool options.ignoreBrackets)]

def stored (options : Options) : String := String.ofList options.toJson.written

def membersCalled (name : String) (members : List (JsonString × Json)) : List Json :=
  (members.filter fun member => member.1.text? == some name).map (·.2)

/-- A switch that is given at most once, and is off where it is not given. -/
def switch? : List Json → Option Bool
  | [] => some false
  | [value] => value.bool?
  | _ => none

def ofJson? : Json → Option Options
  | .object members =>
    if members.all fun member => member.1.text?.isSome then do
      let leading ← switch? (membersCalled "allow_leading_tokens" members)
      let following ← switch? (membersCalled "allow_following_tokens" members)
      let ignoreBrackets ← switch? (membersCalled "ignore_bracket_logic" members)
      some { leading, following, ignoreBrackets }
    else none
  | .array values =>
    if values.length ≤ 3 then do
      let leading ← switch? (values.take 1)
      let following ← switch? ((values.drop 1).take 1)
      let ignoreBrackets ← switch? (values.drop 2)
      some { leading, following, ignoreBrackets }
    else none
  | _ => none

def ofStored? (text : String) : Option Options := do ofJson? (← Json.read text.toList)

end FormulaMatch.Options
