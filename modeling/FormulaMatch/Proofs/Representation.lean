import FormulaMatch.Proofs.Cells
import FormulaMatch.Proofs.Rereading

/-! Numbered trees as expressions. Every part of an expression is found at its place in the order in which
the parts begin, with its parent, its place among the siblings and the sibling behind it; and the tree
is the only one of its expression. -/

namespace FormulaMatch

namespace Formula

variable {ι : Type}

theorem size_unlabel (f : Formula ι) : f.unlabel.size = f.size := by
  rw [← length_preorder, preorder_unlabel, List.length_map, length_preorder]

/-- Numbers in the order in which the nodes begin are those that numbering anew gives. -/
theorem eq_numberFrom_unlabel {n : Node} {start : Nat}
    (h : n.preorder.map label = List.range' start n.size) : n = n.unlabel.numberFrom start := by
  induction n using induction generalizing start with
  | node i k cs ih =>
    have hall : ∀ start, (preorders cs).map label = List.range' start (sizes cs) →
        cs = numberAll start (cs.map unlabel) := by
      clear h
      induction cs with
      | nil => intro start _; rfl
      | cons c cs ihc =>
        intro start hc
        rw [preorders, List.map_append, sizes, ← List.range'_append_1] at hc
        obtain ⟨hfirst, hrest⟩ := List.append_inj hc (by simp)
        rw [List.map_cons, numberAll, size_unlabel, ← ih c (by simp) hfirst,
          ← ihc (fun d hd => ih d (by simp [hd])) _ hrest]
    rw [preorder, List.map_cons, size, Nat.add_comm, List.range'_succ, List.cons.injEq] at h
    obtain ⟨rfl, hrest⟩ := h
    rw [unlabel_node, numberFrom, ← hall _ hrest]
    rfl

end Formula

namespace Tree

variable {t : Tree} {p c : Node} {id : Nat}

/-- The place of a node among its parent's children; the root is at place 0. -/
def position (t : Tree) (id : Nat) : Nat :=
  match t.parent? id with
  | some p => p.children.findIdx fun child => child.label == id
  | none => 0

/-- The cell of a node, as the tree is asked for its parent and its place. -/
def cell (t : Tree) (n : Node) : Cell where
  head := n.head
  children := n.children.map Formula.label
  parent := (t.parent? n.label).map Formula.label
  position := t.position n.label

theorem expr_ofExpr (e : Expr) : (ofExpr e).expr = e := by
  rw [expr, ofExpr, Formula.unlabel_numberFrom, Formula.unlabel_expr]

/-- A tree is the only one of its expression. -/
theorem ofExpr_expr (t : Tree) : ofExpr t.expr = t := by
  obtain ⟨root, numbered⟩ := t
  rw [List.range_eq_range'] at numbered
  simp only [ofExpr, expr, mk.injEq]
  exact (Formula.eq_numberFrom_unlabel numbered).symm

theorem map_unlabel_nodes (t : Tree) : t.nodes.map Formula.unlabel = t.expr.preorder := by
  rw [nodes, expr, Formula.preorder_unlabel]

theorem map_unlabel_node? (t : Tree) (id : Nat) :
    (t.node? id).map Formula.unlabel = t.expr.preorder[id]? := by
  rw [node?, ← List.getElem?_map, map_unlabel_nodes]

theorem node?_label (hp : p ∈ t.nodes) : t.node? p.label = some p := by
  obtain ⟨i, hi⟩ := List.mem_iff_getElem?.mp hp
  rw [label_of_node? hi]
  exact hi

theorem mem_nodes_of_child (hp : p ∈ t.nodes) (hc : c ∈ p.children) : c ∈ t.nodes :=
  Formula.preorder_trans hp (Formula.mem_preorder_of_child hc c.mem_preorder_self)

theorem node?_zero (t : Tree) : t.node? 0 = some t.root := by
  rw [node?, nodes, Formula.preorder_eq]
  rfl

theorem label_root (t : Tree) : t.root.label = 0 := label_of_node? t.node?_zero

theorem label_ne_zero_of_child (hp : p ∈ t.nodes) (hc : c ∈ p.children) : c.label ≠ 0 := by
  have htail : c ∈ t.nodes.tail :=
    t.root.flatMap_children_perm.mem_iff.mp (List.mem_flatMap.mpr ⟨p, hp, hc⟩)
  have hnodup := t.nodup_labels
  rw [nodes, Formula.preorder_eq, List.map_cons, List.nodup_cons, label_root] at hnodup
  rw [nodes, Formula.preorder_eq, List.tail_cons] at htail
  intro hzero
  exact hnodup.1 (hzero ▸ List.mem_map_of_mem htail)

theorem parent?_zero (t : Tree) : t.parent? 0 = none := by
  refine Option.eq_none_iff_forall_ne_some.mpr fun p hp => ?_
  have hany := List.find?_some hp
  obtain ⟨c, hc, hlabel⟩ := List.any_eq_true.mp hany
  exact label_ne_zero_of_child (List.mem_of_find?_eq_some hp) hc (by simpa using hlabel)

theorem position_of_child (hp : p ∈ t.nodes) {before after : List Node}
    (h : p.children = before ++ c :: after) : t.position c.label = before.length := by
  have hnodup := nodup_labels_of_mem hp
  rw [h] at hnodup
  rw [position, parent?_of_child hp (by simp [h])]
  simp only [h, findIdx_key hnodup]

theorem cells_eq_map_cell (hp : p ∈ t.nodes) :
    p.cells ((t.parent? p.label).map Formula.label) (t.position p.label) = p.preorder.map t.cell := by
  induction p using Formula.induction with
  | node i h cs ih =>
    have hall : ∀ before after, cs = before ++ after → Formula.cellsOfChildren i before.length after =
        (Formula.preorders after).map t.cell := by
      intro before after hsplit
      induction after generalizing before with
      | nil => rfl
      | cons c after ihafter =>
        have hc : c ∈ cs := hsplit ▸ List.mem_append_right before List.mem_cons_self
        have hcells := ih c hc (mem_nodes_of_child hp hc)
        rw [parent?_of_child hp hc, position_of_child hp hsplit] at hcells
        have hafter := ihafter (before ++ [c]) (by rw [hsplit, List.append_assoc]; rfl)
        rw [List.length_append, List.length_singleton] at hafter
        rw [Formula.cellsOfChildren, Formula.preorders, List.map_append, ← hcells, ← hafter]
        rfl
    rw [Formula.cells, Formula.preorder, List.map_cons, ← hall [] cs rfl]
    rfl

theorem writeCells_eq_map_cell (e : Expr) :
    (writeCells [] none 0 e).1 = (ofExpr e).nodes.map (ofExpr e).cell := by
  have hcells := cells_eq_map_cell (ofExpr e).root.mem_preorder_self
  rw [label_root, position, parent?_zero] at hcells
  rw [Formula.writeCells_eq]
  exact hcells

/-- How a tree stands for an expression. -/
structure Represents (t : Tree) (e : Expr) : Prop where
  size : t.size = e.preorder.length
  /-- Node `i` is the part that begins at place `i`, with its text, tag and features. -/
  node : ∀ i, (t.node? i).map (fun n => (n.label, n.head, n.unlabel)) =
    e.preorder[i]?.map fun f => (i, f.head, f)
  root : t.node? 0 = some t.root ∧ t.parent? 0 = none
  child : ∀ p ∈ t.nodes, ∀ k c, p.children[k]? = some c →
    t.node? c.label = some c ∧ t.parent? c.label = some p ∧ t.position c.label = k ∧
      t.nextSibling? c.label = p.children[k + 1]?
  expr : t.expr = e
  /-- The cells that are written one after the other hold what the tree answers for each node. -/
  cells : (writeCells [] none 0 e).1 = t.nodes.map t.cell

/-- The tree of an expression represents it, and every tree is that of its expression. -/
theorem ofExpr_represents (e : Expr) : (ofExpr e).Represents e ∧ ∀ t : Tree, ofExpr t.expr = t := by
  refine ⟨{
    size := ?_
    node := fun i => ?_
    root := ⟨node?_zero _, parent?_zero _⟩
    child := fun p hp k c hc => ?_
    expr := expr_ofExpr e
    cells := writeCells_eq_map_cell e }, ofExpr_expr⟩
  · rw [← length_nodes, ← List.length_map Formula.unlabel, map_unlabel_nodes, expr_ofExpr]
  · have hnode := map_unlabel_node? (ofExpr e) i
    rw [expr_ofExpr] at hnode
    rw [← hnode, Option.map_map]
    refine Option.map_congr fun n hn => ?_
    rw [Function.comp_apply, label_of_node? hn, Formula.head_unlabel]
  · obtain ⟨before, after, hsplit, rfl⟩ := exists_split_of_getElem? hc
    have hmem : c ∈ p.children := List.mem_of_getElem? hc
    refine ⟨node?_label (mem_nodes_of_child hp hmem), parent?_of_child hp hmem,
      position_of_child hp hsplit, ?_⟩
    rw [nextSibling?_of_child hp hsplit, hsplit, getElem?_behind]

/-- In `f(x g(y)) z` the node `g` is number 3, at place 1 in `f`, and has no sibling behind it. -/
theorem ofExpr_represents_application :
    let e : Expr := .sequence [.application "f" [.leaf "x", .application "g" [.leaf "y"]], .leaf "z"]
    let t := ofExpr e
    ∃ p c, t.node? 1 = some p ∧ p ∈ t.nodes ∧ p.children[1]? = some c ∧ c.text = "g" ∧
      t.node? c.label = some c ∧ t.parent? c.label = some p ∧ t.position c.label = 1 ∧
      t.nextSibling? c.label = none ∧ t.expr = e ∧ ofExpr t.expr = t := by
  intro e t
  obtain ⟨hrepresents, hunique⟩ := ofExpr_represents e
  obtain ⟨p, hp⟩ : ∃ p, t.node? 1 = some p := ⟨_, rfl⟩
  have hmem : p ∈ t.nodes := List.mem_of_getElem? hp
  obtain ⟨c, hc, htext⟩ : ∃ c, p.children[1]? = some c ∧ c.text = "g" := by
    cases hp
    exact ⟨_, rfl, rfl⟩
  obtain ⟨hnode, hparent, hposition, hnext⟩ := hrepresents.child p hmem 1 c hc
  have hlast : p.children[2]? = none := by
    cases hp
    rfl
  exact ⟨p, c, hp, hmem, hc, htext, hnode, hparent, hposition, hnext.trans hlast, hrepresents.expr,
    hunique t⟩

end Tree

end FormulaMatch
