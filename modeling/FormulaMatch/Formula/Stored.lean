import FormulaMatch.Formula.Basic
import FormulaMatch.Json.Library

/-! Formulas as JSON. An expression is stored as an object with the members text, tag, features and
children, of which the last two are left out when they are empty. When it is read back, members in
any order and with other names are accepted, as is an array of the values in the order above; tag
may be an object with the tag's name and null. -/

namespace FormulaMatch

/-- The fields of an expression, whose children are stored as it is. -/
def Expr.fields (lib : JsonLibrary) (expr : Codec Expr) : List (Field Expr) :=
  [{ Value := String, name := "text", value := Formula.text, codec := lib.text },
   { Value := Tag, name := "tag", value := Formula.tag, codec := lib.variants Tag.all Tag.name },
   { Value := NameMap String, name := "features", value := Formula.features, codec := lib.texts
     absent := some .empty, omits := NameMap.isEmpty },
   { Value := List Expr, name := "children", value := Formula.children, codec := lib.list expr
     absent := some [], omits := List.isEmpty }]

namespace Formula

mutual

def toJson : Expr → Json
  | .node _ h cs =>
    .object (
      (JsonString.ofText "text", Json.ofText h.text) ::
      (JsonString.ofText "tag", Json.ofText h.tag.name) ::
      ((if h.features.isEmpty then []
        else [(JsonString.ofText "features", Json.ofTexts h.features)]) ++
       (if cs.isEmpty then [] else [(JsonString.ofText "children", Json.array (toJsons cs))])))

def toJsons : List Expr → List Json
  | [] => []
  | c :: cs => toJson c :: toJsons cs

end

end Formula

structure StoredMembers where
  text : Option String := none
  tag : Option Tag := none
  features : Option (NameMap String) := none
  children : Option (List Expr) := none

def StoredMembers.expr? (stored : StoredMembers) : Option Expr := do
  let text ← stored.text
  let tag ← stored.tag
  some (.node () { text, tag, features := stored.features.getD .empty } (stored.children.getD []))

def StoredMembers.names : List String := ["text", "tag", "features", "children"]

def Tag.ofJson? : (levels : Nat) → Json → Option Tag := Json.variant? Tag.ofName?

namespace Formula

mutual

/-- The expression that a value stores, with at most `levels` levels of arrays and objects. Members
that are not those of an expression are ignored however deep they are; none of an expression's own
may be repeated. -/
def ofJson? (levels : Nat) : Json → Option Expr
  | .object members =>
    if levels = 0 then none
    else (readMembers (levels - 1) {} members).bind StoredMembers.expr?
  | .array values =>
    if levels = 0 then none
    else (readPlaces (levels - 1) {} StoredMembers.names values).bind StoredMembers.expr?
  | _ => none

def readMember (levels : Nat) (stored : StoredMembers) (name : String) :
    Json → Option StoredMembers
  | .array values =>
    if name = "children" && stored.children.isNone && levels != 0 then
      (readChildren (levels - 1) values).map fun cs => { stored with children := some cs }
    else if StoredMembers.names.contains name then none
    else some stored
  | value =>
    if name = "text" then
      if stored.text.isSome then none
      else value.text?.map fun text => { stored with text := some text }
    else if name = "tag" then
      if stored.tag.isSome then none
      else (Tag.ofJson? levels value).map fun tag => { stored with tag := some tag }
    else if name = "features" then
      if stored.features.isSome then none
      else (Json.texts? levels value).map fun features =>
        { stored with features := some features }
    else if name = "children" then none
    else some stored

def readMembers (levels : Nat) (stored : StoredMembers) :
    List (JsonString × Json) → Option StoredMembers
  | [] => some stored
  | (name, value) :: members =>
    match name.text? with
    | some name =>
      match readMember levels stored name value with
      | some stored => readMembers levels stored members
      | none => none
    | none => none

def readPlaces (levels : Nat) (stored : StoredMembers) (names : List String) :
    List Json → Option StoredMembers
  | [] => some stored
  | value :: values =>
    match names with
    | name :: names =>
      match readMember levels stored name value with
      | some stored => readPlaces levels stored names values
      | none => none
    | [] => none

def readChildren (levels : Nat) : List Json → Option (List Expr)
  | [] => some []
  | value :: values =>
    match ofJson? levels value with
    | some e => (readChildren levels values).map (e :: ·)
    | none => none

end

end Formula

namespace Expr

def codec : Codec Expr := ⟨Formula.toJson, Formula.ofJson?⟩

def stored (e : Expr) : String := Json.library.toText codec e

def ofStored? (text : String) : Option Expr := Json.library.fromText codec text

end Expr

end FormulaMatch
