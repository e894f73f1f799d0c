import FormulaMatch.Json.Reading
import FormulaMatch.Json.Writing
import FormulaMatch.NameMap

/-! What is asked of JSON: to print and to parse its values, and ways to store texts, variants, maps and
lists as such. How a record is stored follows from the fields that are declared for it. The JSON of this
project offers the former. -/

namespace FormulaMatch

/-- How the values of a type are stored, and which of them a JSON value is read as where so many levels of
arrays and objects may be open. -/
structure Codec (α : Type) where
  encode : α → Json
  decode : (levels : Nat) → Json → Option α

/-- A field as a record declares it. -/
structure Field (σ : Type) where
  Value : Type
  name : String
  value : σ → Value
  codec : Codec Value
  /-- What the field is where it is missing, if it may be. -/
  absent : Option Value := none
  /-- The values that are not stored. -/
  omits : Value → Bool := fun _ => false

structure JsonLibrary where
  print : Json → String
  parse : String → Option Json
  /-- How many levels of arrays and objects are read. -/
  levels : Nat
  text : Codec String
  variants {α : Type} (all : List α) (name : α → String) : Codec α
  texts : Codec (NameMap String)
  list {α : Type} (item : Codec α) : Codec (List α)

namespace JsonLibrary

variable {α : Type} (lib : JsonLibrary) (codec : Codec α)

def toText (x : α) : String := lib.print (codec.encode x)

def fromText (text : String) : Option α := (lib.parse text).bind (codec.decode lib.levels)

end JsonLibrary

/-- The depth of arrays and objects to which values are read. -/
def storedDepth : Nat := 127

namespace Json

/-- A variant by its name, where an object is one level of nesting, of which `levels` are allowed. -/
def variant? {α : Type} (ofName? : String → Option α) (levels : Nat) : Json → Option α
  | .object [(name, .null)] => if levels = 0 then none else name.text?.bind ofName?
  | value => value.text?.bind ofName?

def ofTexts (texts : NameMap String) : Json :=
  .object (texts.entries.map fun entry => (JsonString.ofText entry.1, Json.ofText entry.2))

def textPair? (member : JsonString × Json) : Option (String × String) := do
  some (← member.1.text?, ← member.2.text?)

/-- Texts by name, of which the last of one name counts. -/
def texts? (levels : Nat) : Json → Option (NameMap String)
  | .object members =>
    if levels = 0 then none
    else (members.mapM textPair?).map NameMap.ofList
  | _ => none

def items? {α : Type} (read : Nat → Json → Option α) (levels : Nat) : Json → Option (List α)
  | .array values => if levels = 0 then none else values.mapM (read (levels - 1))
  | _ => none

abbrev library : JsonLibrary where
  print v := String.ofList v.written
  parse text := Json.read text.toList
  levels := storedDepth
  text := ⟨ofText, fun _ => text?⟩
  variants all name := ⟨fun x => ofText (name x), variant? fun text => all.find? fun x => name x == text⟩
  texts := ⟨ofTexts, texts?⟩
  list item := ⟨fun xs => .array (xs.map item.encode), items? item.decode⟩

end Json

end FormulaMatch
