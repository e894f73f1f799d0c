import FormulaMatch.NameMap
import FormulaMatch.Tag
import FormulaMatch.Text.Words

/-! Formulas: trees whose nodes carry a head and a label. Expressions have no labels; the labels of
nodes in a numbered tree are their places in it. -/

namespace FormulaMatch

structure Head where
  text : String
  tag : Tag
  features : NameMap String := .empty
  deriving DecidableEq

inductive Formula (ι : Type) where
  | node (label : ι) (head : Head) (children : List (Formula ι))

abbrev Expr := Formula Unit

abbrev Node := Formula Nat

namespace Formula

variable {ι κ : Type}

def label : Formula ι → ι
  | node i _ _ => i

def head : Formula ι → Head
  | node _ h _ => h

def children : Formula ι → List (Formula ι)
  | node _ _ cs => cs

def text (f : Formula ι) : String := f.head.text

def tag (f : Formula ι) : Tag := f.head.tag

def features (f : Formula ι) : NameMap String := f.head.features

def isLeaf (f : Formula ι) : Bool := f.children.isEmpty

@[elab_as_elim]
theorem induction {P : Formula ι → Prop}
    (node : ∀ i h cs, (∀ c ∈ cs, P c) → P (.node i h cs)) (f : Formula ι) : P f :=
  @Formula.rec ι P (fun cs => ∀ c ∈ cs, P c) node (by simp)
    (fun _ _ hd htl => List.forall_mem_cons.2 ⟨hd, htl⟩) f

mutual

def decEq [DecidableEq ι] : (f g : Formula ι) → Decidable (f = g)
  | .node i h cs, .node j k ds =>
    if hi : i = j then
      if hh : h = k then
        match decEqs cs ds with
        | isTrue hc => isTrue (by rw [hi, hh, hc])
        | isFalse hc => isFalse (by rintro ⟨⟩; exact hc rfl)
      else isFalse (by rintro ⟨⟩; exact hh rfl)
    else isFalse (by rintro ⟨⟩; exact hi rfl)

def decEqs [DecidableEq ι] : (fs gs : List (Formula ι)) → Decidable (fs = gs)
  | [], [] => isTrue rfl
  | [], _ :: _ => isFalse (by simp)
  | _ :: _, [] => isFalse (by simp)
  | f :: fs, g :: gs =>
    match decEq f g with
    | isFalse hf => isFalse (by rintro ⟨⟩; exact hf rfl)
    | isTrue hf =>
      match decEqs fs gs with
      | isTrue hfs => isTrue (by rw [hf, hfs])
      | isFalse hfs => isFalse (by rintro ⟨⟩; exact hfs rfl)

end

instance [DecidableEq ι] : DecidableEq (Formula ι) := decEq

mutual

def relabel (f : ι → κ) : Formula ι → Formula κ
  | .node i h cs => .node (f i) h (relabels f cs)

def relabels (f : ι → κ) : List (Formula ι) → List (Formula κ)
  | [] => []
  | c :: cs => c.relabel f :: relabels f cs

end

theorem relabels_eq_map (f : ι → κ) (cs : List (Formula ι)) :
    relabels f cs = cs.map (relabel f) := by
  induction cs with
  | nil => rfl
  | cons c cs ih => simp [relabels, ih]

def unlabel (f : Formula ι) : Expr := f.relabel fun _ => ()

@[simp] theorem unlabel_node (i : ι) (h : Head) (cs : List (Formula ι)) :
    (node i h cs).unlabel = node () h (cs.map unlabel) := by
  simp [unlabel, relabel, relabels_eq_map]

@[simp] theorem head_unlabel (f : Formula ι) : f.unlabel.head = f.head := by
  cases f
  simp [head]

@[simp] theorem text_unlabel (f : Formula ι) : f.unlabel.text = f.text := by
  cases f
  simp [text, head]

theorem children_unlabel (f : Formula ι) : f.unlabel.children = f.children.map unlabel := by
  cases f
  simp [children]

/-- Expressions have no labels to lose. -/
theorem unlabel_expr (e : Expr) : e.unlabel = e := by
  induction e using induction with
  | node i h cs ih => rw [unlabel_node, List.map_congr_left ih, List.map_id']

def mapChildren (g : Formula ι → Formula ι) : Formula ι → Formula ι
  | .node i h cs => .node i h (cs.map g)

def withTag (tag : Tag) : Formula ι → Formula ι
  | .node i h cs => .node i { h with tag } cs

def withFeature (name value : String) : Formula ι → Formula ι
  | .node i h cs => .node i { h with features := h.features.insert name value } cs

end Formula

def Head.isAnonymous (h : Head) (tag : Tag) : Bool := h.tag == tag && h.text.isEmpty

/-- Whether the formula is a bare sequence, which has no text of its own. -/
def Formula.isSequence {ι : Type} (f : Formula ι) : Bool := f.head.isAnonymous .sequence

def Formula.isGroup {ι : Type} (f : Formula ι) : Bool := f.head.isAnonymous .group

namespace Expr

def make (text : String) (tag : Tag) (children : List Expr) : Expr :=
  .node () { text, tag } children

/-- A token, with the tag that its text has. -/
def leaf (text : String) : Expr := make text (.ofText text) []

def application (text : String) (arguments : List Expr) : Expr := make text .function arguments

def sequence (items : List Expr) : Expr := make "" .sequence items

def group (items : List Expr) : Expr := make "" .group items

def tokens (text : String) : Expr :=
  sequence ((words text.toList).map fun word => leaf (String.ofList word))

end Expr

end FormulaMatch
