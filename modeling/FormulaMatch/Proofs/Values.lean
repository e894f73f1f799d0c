import FormulaMatch.Json.Basic
import Mathlib.Data.List.Basic

/-! Values made of texts, arrays and objects: how deep they nest, and whether an array or object in them is
empty. -/

namespace FormulaMatch

def JsonString.IsText (units : JsonString) : Prop := ∃ text, units = ofText text

@[simp] theorem JsonString.isText_ofText (text : String) : (ofText text).IsText := ⟨text, rfl⟩

namespace Json

@[simp] theorem text?_ofText (text : String) : (ofText text).text? = some text :=
  JsonString.text?_ofText text

inductive Textual : Json → Prop
  | text (text : String) : Textual (.ofText text)
  | array (vs : List Json) (items : ∀ v ∈ vs, Textual v) : Textual (.array vs)
  | object (members : List (JsonString × Json)) (names : ∀ m ∈ members, m.1.IsText)
    (values : ∀ m ∈ members, Textual m.2) : Textual (.object members)

/-- Texts, and arrays and objects of such values of which none is empty. -/
inductive Filled : Json → Prop
  | text (text : String) : Filled (.ofText text)
  | array (v : Json) (vs : List Json) (items : ∀ w ∈ v :: vs, Filled w) : Filled (.array (v :: vs))
  | object (member : JsonString × Json) (members : List (JsonString × Json))
    (names : ∀ m ∈ member :: members, m.1.IsText)
    (values : ∀ m ∈ member :: members, Filled m.2) : Filled (.object (member :: members))

theorem Filled.textual {v : Json} (h : v.Filled) : v.Textual := by
  induction h with
  | text text => exact .text text
  | array v vs _ ih => exact .array _ ih
  | object member members names _ ih => exact .object _ names ih

mutual

/-- How many arrays and objects are open at most. -/
def depth : Json → Nat
  | .array items => itemsDepth items + 1
  | .object members => membersDepth members + 1
  | .null | .bool _ | .number _ | .string _ => 0

def itemsDepth : List Json → Nat
  | [] => 0
  | v :: vs => max (depth v) (itemsDepth vs)

def membersDepth : List (JsonString × Json) → Nat
  | [] => 0
  | (_, v) :: members => max (depth v) (membersDepth members)

end

theorem itemsDepth_le_iff {vs : List Json} {n : Nat} : itemsDepth vs ≤ n ↔ ∀ v ∈ vs, v.depth ≤ n := by
  induction vs with
  | nil => simp [itemsDepth]
  | cons v vs ih => rw [itemsDepth, Nat.max_le, ih, List.forall_mem_cons]

theorem membersDepth_le_iff {members : List (JsonString × Json)} {n : Nat} :
    membersDepth members ≤ n ↔ ∀ m ∈ members, m.2.depth ≤ n := by
  induction members with
  | nil => simp [membersDepth]
  | cons m members ih => rw [membersDepth, Nat.max_le, ih, List.forall_mem_cons]

@[simp] theorem depth_ofText (text : String) : (ofText text).depth = 0 := by
  rw [ofText, depth]

end Json

end FormulaMatch
