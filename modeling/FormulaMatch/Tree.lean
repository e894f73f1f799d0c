import FormulaMatch.Formula.Preorder
import FormulaMatch.Formula.Render

/-! Numbered trees. A node's number is its place in the list of nodes, each before its children, so
numbers find nodes, and parents and siblings are read off the tree. -/

namespace FormulaMatch

structure Tree where
  root : Node
  numbered : root.preorder.map Formula.label = List.range root.size
  deriving DecidableEq

namespace Tree

def ofExpr (e : Expr) : Tree where
  root := e.numberFrom 0
  numbered := by
    rw [Formula.map_label_preorder_numberFrom, Formula.size_numberFrom, List.range_eq_range']

def expr (t : Tree) : Expr := t.root.unlabel

def nodes (t : Tree) : List Node := t.root.preorder

def size (t : Tree) : Nat := t.root.size

def node? (t : Tree) (id : Nat) : Option Node := t.nodes[id]?

/-- The root's children if the root is a bare sequence, and the root alone otherwise. -/
def topLevel (t : Tree) : List Node :=
  if t.root.isSequence then t.root.children else [t.root]

def parent? (t : Tree) (id : Nat) : Option Node :=
  t.nodes.find? fun n => n.children.any fun c => c.label == id

def siblingsAfter (t : Tree) (id : Nat) : List Node :=
  match t.parent? id with
  | some p => (p.children.dropWhile fun c => c.label != id).drop 1
  | none => []

def nextSibling? (t : Tree) (id : Nat) : Option Node := (t.siblingsAfter id).head?

def render (t : Tree) : String := t.root.render

theorem length_nodes (t : Tree) : t.nodes.length = t.size := Formula.length_preorder t.root

theorem nodup_labels (t : Tree) : (t.nodes.map Formula.label).Nodup := by
  rw [nodes, t.numbered]
  exact List.nodup_range

theorem label_of_node? {t : Tree} {id : Nat} {n : Node} (h : t.node? id = some n) :
    n.label = id := by
  have hl : (t.nodes.map Formula.label)[id]? = some n.label := by
    rw [List.getElem?_map, show t.nodes[id]? = some n from h]; rfl
  rw [nodes, t.numbered] at hl
  obtain ⟨_, hl⟩ := List.getElem?_eq_some_iff.1 hl
  simpa using hl.symm

theorem topLevel_ofExpr_sequence (items : List Expr) :
    (ofExpr (.sequence items)).topLevel.map Formula.unlabel = items := by
  have h := congrArg Formula.children (Formula.unlabel_numberFrom (Expr.sequence items) 0)
  rw [Formula.unlabel_expr, Formula.children_unlabel] at h
  exact h

end Tree

end FormulaMatch
