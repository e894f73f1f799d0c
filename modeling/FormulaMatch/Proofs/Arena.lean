import FormulaMatch.Proofs.Representation

/-! Formulas kept as cells that name one another by number. Numbers grow from a node to its children, so
a walk from cell to cell ends, and comparing two nodes in this way is comparing the expressions that
are read off their cells. -/

namespace FormulaMatch

/-- What stands in for a cell where there is none. -/
def Cell.missing : Cell := ⟨{ text := "", tag := .sequence }, [], none, 0⟩

/-- Rows of cells in which children come behind their parents. -/
structure Arena where
  cells : List Cell
  forward : ∀ i, ∀ j ∈ (cells.getD i .missing).children, i < j ∧ j < cells.length

namespace Arena

def cell (s : Arena) (i : Nat) : Cell := s.cells.getD i .missing

theorem child_lt {s : Arena} {i j : Nat} (h : j ∈ (s.cell i).children) :
    s.cells.length - j < s.cells.length - i := by
  have hforward := s.forward i j h
  omega

/-- The expression that begins at a cell. -/
def expr (s : Arena) (i : Nat) : Expr :=
  .node () (s.cell i).head ((s.cell i).children.attach.map fun j => s.expr j.1)
termination_by s.cells.length - i
decreasing_by exact child_lt j.2

/-- Whether texts and numbers of children agree from two cells on. -/
def sameShape (s t : Arena) (i j : Nat) : Bool :=
  (s.cell i).head.text == (t.cell j).head.text &&
    ((s.cell i).children.length == (t.cell j).children.length &&
      ((s.cell i).children.zip (t.cell j).children).attach.all fun pair =>
        s.sameShape t pair.1.1 pair.1.2)
termination_by s.cells.length - i
decreasing_by exact child_lt (List.of_mem_zip pair.2).1

theorem expr_eq (s : Arena) (i : Nat) :
    s.expr i = .node () (s.cell i).head ((s.cell i).children.map s.expr) := by
  rw [expr]
  congr 1
  exact (List.map_map ..).symm.trans (congrArg (List.map s.expr) (List.attach_map_subtype_val _))

theorem sameShape_eq_zip (s t : Arena) (i j : Nat) : s.sameShape t i j =
    ((s.cell i).head.text == (t.cell j).head.text &&
      ((s.cell i).children.length == (t.cell j).children.length &&
        ((s.cell i).children.zip (t.cell j).children).all fun pair => s.sameShape t pair.1 pair.2)) := by
  have hall (pairs : List (Nat × Nat)) : pairs.attach.all (fun pair => s.sameShape t pair.1.1 pair.1.2) =
      pairs.all fun pair => s.sameShape t pair.1 pair.2 := by
    conv_rhs => rw [← List.attach_map_subtype_val pairs, List.all_map]
    rfl
  rw [sameShape, hall]

end Arena

namespace Formula

variable {ι κ : Type}

theorem sameShapes_eq_zip (cs : List (Formula ι)) (ds : List (Formula κ)) : sameShapes cs ds =
    (cs.length == ds.length && (cs.zip ds).all fun pair => pair.1.sameShape pair.2) := by
  induction cs generalizing ds with
  | nil => cases ds <;> simp [sameShapes]
  | cons c cs ih =>
    cases ds with
    | nil => simp [sameShapes]
    | cons d ds =>
      rw [sameShapes_cons, ih]
      simp [Bool.and_left_comm]

end Formula

namespace Arena

/-- Comparing cells by number compares the expressions that begin at them. -/
theorem sameShape_eq (s t : Arena) (i j : Nat) : s.sameShape t i j = (s.expr i).sameShape (t.expr j) := by
  induction hn : s.cells.length - i using Nat.strong_induction_on generalizing i j with
  | _ n ih =>
    have hpairs : ((s.cell i).children.zip (t.cell j).children).all
          (fun pair => s.sameShape t pair.1 pair.2) =
        (((s.cell i).children.map s.expr).zip ((t.cell j).children.map t.expr)).all
          fun pair => pair.1.sameShape pair.2 := by
      rw [List.zip_map, List.all_map, Bool.eq_iff_iff, List.all_eq_true, List.all_eq_true]
      refine forall₂_congr fun pair hpair => ?_
      have hlt := child_lt (List.of_mem_zip hpair).1
      rw [ih _ (hn ▸ hlt) pair.1 pair.2 rfl]
      rfl
    rw [sameShape_eq_zip, expr_eq, expr_eq, Formula.sameShape_node, Formula.sameShapes_eq_zip, hpairs,
      List.length_map, List.length_map]

theorem label_lt_of_child {n : Node} (h : (n.preorder.map Formula.label).Pairwise (· < ·)) :
    ∀ p ∈ n.preorder, ∀ c ∈ p.children, p.label < c.label := by
  induction n using Formula.induction with
  | node i k cs ih =>
    rw [Formula.preorder, List.map_cons, List.pairwise_cons, Formula.preorders_eq_flatMap,
      List.map_flatMap] at h
    obtain ⟨hfirst, hrest⟩ := h
    intro p hp c hc
    rcases Formula.mem_preorder_iff.mp hp with rfl | ⟨d, hd, hp⟩
    · refine hfirst c.label ?_
      rw [← List.map_flatMap]
      exact List.mem_map_of_mem (List.mem_flatMap.mpr ⟨c, hc, c.mem_preorder_self⟩)
    · exact ih d hd ((List.pairwise_flatMap.mp hrest).1 d hd) p hp c hc

theorem getD_cells {e : Expr} {n : Node} (hn : n ∈ (Tree.ofExpr e).nodes) :
    (writeCells [] none 0 e).1.getD n.label .missing = (Tree.ofExpr e).cell n := by
  have hnode : (Tree.ofExpr e).nodes[n.label]? = some n := Tree.node?_label hn
  rw [Tree.writeCells_eq_map_cell, List.getD_eq_getElem?_getD, List.getElem?_map, hnode]
  rfl

theorem forward_writeCells (e : Expr) (i : Nat) :
    ∀ j ∈ ((writeCells [] none 0 e).1.getD i .missing).children,
      i < j ∧ j < (writeCells [] none 0 e).1.length := by
  have hsorted : ((Tree.ofExpr e).nodes.map Formula.label).Pairwise (· < ·) := by
    rw [Tree.nodes, (Tree.ofExpr e).numbered]
    exact List.pairwise_lt_range
  have hlength : (writeCells [] none 0 e).1.length = (Tree.ofExpr e).nodes.length := by
    rw [Tree.writeCells_eq_map_cell, List.length_map]
  intro j hj
  by_cases hi : i < (Tree.ofExpr e).nodes.length
  · obtain ⟨n, hn⟩ : ∃ n, (Tree.ofExpr e).node? i = some n := ⟨_, List.getElem?_eq_getElem hi⟩
    have hmem : n ∈ (Tree.ofExpr e).nodes := List.mem_of_getElem? hn
    obtain rfl := Tree.label_of_node? hn
    rw [getD_cells hmem] at hj
    obtain ⟨c, hc, rfl⟩ := List.mem_map.mp hj
    have hplace := Tree.node?_label (Tree.mem_nodes_of_child hmem hc)
    obtain ⟨hlt, _⟩ := List.getElem?_eq_some_iff.mp hplace
    exact ⟨label_lt_of_child hsorted n hmem c hc, hlength ▸ hlt⟩
  · have hnone : (writeCells [] none 0 e).1.getD i .missing = .missing := by
      rw [List.getD_eq_getElem?_getD, List.getElem?_eq_none (by omega)]
      rfl
    rw [hnone] at hj
    cases hj

/-- The cells of an expression, as they are written. -/
def ofExpr (e : Expr) : Arena where
  cells := (writeCells [] none 0 e).1
  forward := forward_writeCells e

theorem cell_ofExpr {e : Expr} {n : Node} (hn : n ∈ (Tree.ofExpr e).nodes) :
    (ofExpr e).cell n.label = (Tree.ofExpr e).cell n := getD_cells hn

/-- The expression at a node's number is the part that begins there. -/
theorem expr_ofExpr {e : Expr} {n : Node} (hn : n ∈ (Tree.ofExpr e).nodes) :
    (ofExpr e).expr n.label = n.unlabel := by
  induction n using Formula.induction with
  | node i h cs ih =>
    have hchildren : cs.map (fun c => (ofExpr e).expr c.label) = cs.map Formula.unlabel :=
      List.map_congr_left fun c hc => ih c hc (Tree.mem_nodes_of_child hn hc)
    rw [expr_eq, cell_ofExpr hn, Formula.unlabel_node, ← hchildren]
    simp [Tree.cell, Formula.head, Formula.children, Function.comp_def]

end Arena

end FormulaMatch
