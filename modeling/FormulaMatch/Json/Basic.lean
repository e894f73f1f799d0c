/-! JSON values as they are written: members keep their order and may repeat a name. A string is a
sequence of characters and of surrogates without a partner, and has a text if it has none of the
latter. -/

namespace FormulaMatch

inductive JsonUnit where
  | char (c : Char)
  | surrogate (code : Nat)
  deriving DecidableEq, Repr

abbrev JsonString := List JsonUnit

/-- A number is kept as it is spelt. -/
inductive Json where
  | null
  | bool (b : Bool)
  | number (spelling : List Char)
  | string (units : JsonString)
  | array (items : List Json)
  | object (members : List (JsonString × Json))

instance : Inhabited Json := ⟨.null⟩

def JsonUnit.char? : JsonUnit → Option Char
  | char c => some c
  | surrogate _ => none

def JsonString.ofText (text : String) : JsonString := text.toList.map .char

def JsonString.text? (units : JsonString) : Option String :=
  (units.mapM JsonUnit.char?).map String.ofList

@[simp] theorem JsonString.text?_ofText (text : String) : (ofText text).text? = some text := by
  have hall (cs : List Char) : (cs.map JsonUnit.char).mapM JsonUnit.char? = some cs := by
    induction cs with
    | nil => rfl
    | cons c cs ih => simp [JsonUnit.char?, ih]
  simp [text?, ofText, hall]

def Json.ofText (text : String) : Json := .string (JsonString.ofText text)

def Json.text? : Json → Option String
  | string units => units.text?
  | _ => none

def Json.bool? : Json → Option Bool
  | bool b => some b
  | _ => none

end FormulaMatch
