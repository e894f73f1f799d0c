import FormulaMatch.Json.Library
import FormulaMatch.Proofs.Values
import Mathlib.Data.List.Forall2

/-! Records and how they are stored. What is taken for granted of a library of JSON is that it parses what it
prints, and that its codecs keep what they store, an array or object for one level of nesting. A codec is
derived from the fields of a record if it stores those that are not omitted, in their order, and reads
a record with whose fields the members that are found agree. -/

namespace FormulaMatch

namespace JsonLibrary

structure Standard (lib : JsonLibrary) : Prop where
  parse_print : ∀ v : Json, v.Textual → lib.parse (lib.print v) = some v
  encode_text : ∀ text, lib.text.encode text = .ofText text
  decode_text : ∀ n text, lib.text.decode n (.ofText text) = some text
  encode_variants : ∀ {α : Type} (all : List α) (name : α → String) (x : α),
    (lib.variants all name).encode x = .ofText (name x)
  decode_variants : ∀ {α : Type} (all : List α) (name : α → String), (all.map name).Nodup →
    ∀ n, ∀ x ∈ all, (lib.variants all name).decode n (.ofText (name x)) = some x
  encode_texts : ∀ texts, lib.texts.encode texts = Json.ofTexts texts
  decode_texts : ∀ n texts, lib.texts.decode (n + 1) (Json.ofTexts texts) = some texts
  texts_levels : ∀ n v texts, lib.texts.decode n v = some texts → 0 < n
  encode_list : ∀ {α : Type} (item : Codec α) (xs : List α),
    (lib.list item).encode xs = .array (xs.map item.encode)
  decode_list : ∀ {α : Type} (item : Codec α) n v (xs : List α),
    (lib.list item).decode n v = some xs ↔
      ∃ m vs, n = m + 1 ∧ v = .array vs ∧ List.Forall₂ (fun v x => item.decode m v = some x) vs xs

end JsonLibrary

namespace Field

variable {σ : Type}

/-- What is stored of a field. -/
def stored? (f : Field σ) (x : σ) : Option Json :=
  if f.omits (f.value x) then none else some (f.codec.encode (f.value x))

/-- Whether the field is that of `x`, if this value is found for it and `n` levels may be open there. -/
def Agrees (f : Field σ) (n : Nat) (x : σ) : Option Json → Prop
  | some v => f.codec.decode n v = some (f.value x)
  | none => f.absent = some (f.value x)

/-- What is found is the value, and where nothing is found, what is taken instead. -/
theorem Agrees.map_or {f : Field σ} {n : Nat} {x : σ} {found : Option Json} (h : f.Agrees n x found) :
    (found.map fun _ => f.value x).or f.absent = some (f.value x) := by
  cases found with
  | none => exact h
  | some v => rfl

theorem Agrees.decode_of_mem {f : Field σ} {n : Nat} {x : σ} {found : Option Json} (h : f.Agrees n x found) :
    ∀ v ∈ found, f.codec.decode n v = some (f.value x) := by
  rintro v rfl
  exact h

theorem agrees_stored? {f : Field σ} {n : Nat} {x : σ}
    (hread : f.omits (f.value x) = false → f.codec.decode n (f.codec.encode (f.value x)) = some (f.value x))
    (habsent : f.omits (f.value x) = true → f.absent = some (f.value x)) : f.Agrees n x (f.stored? x) := by
  unfold stored?
  split
  · exact habsent ‹_›
  · exact hread (Bool.eq_false_iff.mpr ‹_›)

/-- The members of an object in which these values are found for the fields. -/
def members (fields : List (Field σ)) (found : Field σ → Option Json) : List (JsonString × Json) :=
  fields.filterMap fun f => (found f).map fun v => (JsonString.ofText f.name, v)

theorem members_cons (f : Field σ) (fields : List (Field σ)) (found : Field σ → Option Json) :
    members (f :: fields) found =
      ((found f).map fun v => (JsonString.ofText f.name, v)).toList ++ members fields found := by
  rw [members, List.filterMap_cons]
  cases found f <;> rfl

end Field

structure Codec.Derives {σ : Type} (codec : Codec σ) (fields : List (Field σ)) : Prop where
  encode : ∀ x, codec.encode x = .object (Field.members fields fun f => f.stored? x)
  decode : (fields.map Field.name).Nodup → ∀ n x found, (∀ f ∈ fields, f.Agrees n x (found f)) →
    codec.decode (n + 1) (.object (Field.members fields found)) = some x
  /-- A record is one level, and each of its fields was found or is what is taken where it is missing. -/
  levels : ∀ n v x, codec.decode n v = some x →
    ∃ m, n = m + 1 ∧ ∀ f ∈ fields, ∃ found, f.Agrees m x found

/-- A record is read back if each of its fields is, those that are omitted from what is taken for them. -/
theorem Codec.Derives.decode_encode {σ : Type} {codec : Codec σ} {fields : List (Field σ)}
    (h : codec.Derives fields) (hnames : (fields.map Field.name).Nodup) {n : Nat} {x : σ}
    (hfields : ∀ f ∈ fields, f.Agrees n x (f.stored? x)) :
    codec.decode (n + 1) (codec.encode x) = some x := by
  rw [h.encode]
  exact h.decode hnames n x _ hfields

end FormulaMatch
