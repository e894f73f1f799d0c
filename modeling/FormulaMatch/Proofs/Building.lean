import FormulaMatch.Pattern.Arena
import FormulaMatch.Proofs.Offenders
import FormulaMatch.Proofs.Representation

/-! Building a stored pattern. While the slots grow they are the cells of the tree as far as it has been
gone through, each with the kind that its text gives it, and building stops at the node that cannot
become a part. -/

namespace FormulaMatch

def Slot.ofCell (recognises : String → Bool) (c : Cell) : Slot where
  head := c.head
  kind := if recognises c.head.text then .wildcard c.head.text else .literal c.children
  parent := c.parent
  position := c.position

section Building

variable {recognises : String → Bool}

theorem wildcardName?_ofCell (recognises : String → Bool) (c : Cell) :
    (Slot.ofCell recognises c).wildcardName? = if recognises c.head.text then some c.head.text else none := by
  cases h : recognises c.head.text <;> simp [Slot.ofCell, Slot.wildcardName?, h]

theorem isWildcard_ofCell (recognises : String → Bool) (c : Cell) :
    (Slot.ofCell recognises c).isWildcard = recognises c.head.text := by
  cases h : recognises c.head.text <;> simp [Slot.isWildcard, wildcardName?_ofCell, h]

theorem wildcardName?_cells {n : Node} {p : Part} (h : Part.ofNode recognises n = .ok p) (done : List Slot)
    (parent : Option Nat) (position start : Nat) :
    (done ++ ((n.numberFrom start).cells parent position).map (Slot.ofCell recognises))[done.length]?.bind
      Slot.wildcardName? = p.wildcardName? := by
  obtain ⟨i, hd, cs⟩ := n
  rw [Part.wildcardName?_of_ofNode h, Formula.numberFrom, Formula.cells, List.map_cons,
    List.getElem?_append_right (Nat.le_refl _), Nat.sub_self, List.getElem?_cons_zero, Option.bind_some,
    wildcardName?_ofCell]
  rfl

theorem buildChildren_eq_of_forall {cs : List Node}
    (hcs : ∀ c ∈ cs, ∀ (done : List Slot) (parent : Option Nat) (position : Nat),
      buildSlot recognises done parent position c = (Part.ofNode recognises c).map fun _ =>
        (done ++ ((c.numberFrom done.length).cells parent position).map (Slot.ofCell recognises), done.length))
    (done : List Slot) (owner position : Nat) (left : Option String) :
    buildChildren recognises done owner position left cs =
      (Part.ofSiblings recognises left cs).map fun _ =>
        (done ++ (Formula.cellsOfChildren owner position (Formula.numberAll done.length cs)).map
            (Slot.ofCell recognises),
          (Formula.numberAll done.length cs).map Formula.label) := by
  induction cs generalizing done position left with
  | nil => simp [buildChildren, Part.ofSiblings, Formula.numberAll, Formula.cellsOfChildren, Except.map]
  | cons c cs ih =>
    obtain ⟨hc, hcs⟩ := List.forall_mem_cons.mp hcs
    rw [buildChildren, hc, Part.ofSiblings]
    cases hp : Part.ofNode recognises c with
    | error fault => rfl
    | ok p =>
      have hlength : (done ++ ((c.numberFrom done.length).cells (some owner) position).map
          (Slot.ofCell recognises)).length = done.length + c.size := by
        rw [List.length_append, List.length_map, Formula.length_cells, Formula.size_numberFrom]
      have hrest : ∀ name, buildChildren recognises (done ++ ((c.numberFrom done.length).cells (some owner)
          position).map (Slot.ofCell recognises)) owner (position + 1) name cs = _ := ih hcs _ _
      simp only [Except.map, wildcardName?_cells hp, hrest, hlength, Formula.numberAll,
        Formula.cellsOfChildren, List.map_append, List.map_cons, Formula.label_numberFrom, List.append_assoc]
      cases left with
      | none => cases hrow : Part.ofSiblings recognises p.wildcardName? cs <;> simp [hrow]
      | some first =>
        cases p.wildcardName? with
        | none => cases hrow : Part.ofSiblings recognises none cs <;> simp [hrow]
        | some second => rfl

/-- A node that becomes a part is stored as its cells, numbered on from the slots before it. -/
theorem buildSlot_eq (recognises : String → Bool) (n : Node) (done : List Slot) (parent : Option Nat)
    (position : Nat) : buildSlot recognises done parent position n =
      (Part.ofNode recognises n).map fun _ =>
        (done ++ ((n.numberFrom done.length).cells parent position).map (Slot.ofCell recognises),
          done.length) := by
  induction n using Formula.induction generalizing done parent position with
  | node i h cs ih =>
    rw [buildSlot, Part.ofNode]
    cases hr : recognises h.text with
    | true =>
      cases cs with
      | nil => simp [Except.map, Formula.numberFrom, Formula.numberAll, Formula.cells,
          Formula.cellsOfChildren, Slot.ofCell, hr]
      | cons c cs => rfl
    | false =>
      simp only [Bool.false_eq_true, if_false, buildChildren_eq_of_forall ih, List.length_append,
        List.length_singleton]
      cases Part.ofSiblings recognises none cs with
      | error fault => rfl
      | ok ps =>
        simp only [Except.map, List.append_assoc, List.singleton_append, Formula.modify_concat,
          Formula.numberFrom, Formula.cells, List.map_cons]
        simp [Slot.ofCell, hr]

end Building

theorem Tree.exists_child_of_parent? {t : Tree} {id : Nat} {p : Node} (h : t.parent? id = some p) :
    p ∈ t.nodes ∧ ∃ before c after, p.children = before ++ c :: after ∧ c.label = id := by
  refine ⟨List.mem_of_find?_eq_some h, ?_⟩
  have hany := List.find?_some h
  obtain ⟨c, hc, hlabel⟩ := List.any_eq_true.mp hany
  obtain ⟨before, after, hsplit⟩ := List.append_of_mem hc
  exact ⟨before, c, after, hsplit, by simpa using hlabel⟩

/-- What a slot keeps of a node. -/
def Slot.cell (s : Slot) : Cell := ⟨s.head, s.children, s.parent, s.position⟩

namespace PatternArena

variable {recognises : String → Bool} {t : Tree} {a : PatternArena} {p : Pattern} {id : Nat}

theorem numberFrom_root (t : Tree) : t.root.numberFrom 0 = t.root := by
  have hlabels : (t.root.numberFrom 0).preorder.map Formula.label =
      List.range' 0 (t.root.numberFrom 0).size := by
    rw [Formula.map_label_preorder_numberFrom, Formula.size_numberFrom]
  calc t.root.numberFrom 0 = (t.root.numberFrom 0).unlabel.numberFrom 0 :=
        Formula.eq_numberFrom_unlabel hlabels
    _ = t.expr.numberFrom 0 := by rw [Formula.unlabel_numberFrom, Tree.expr]
    _ = t.root := congrArg Tree.root t.ofExpr_expr

/-- A tree is stored as a pattern exactly if it becomes one, and then as its nodes with their parents and
places. -/
theorem ofTree_eq (recognises : String → Bool) (t : Tree) : ofTree recognises t =
    (Pattern.ofTree recognises t).map fun _ =>
      { slots := t.nodes.map fun n => Slot.ofCell recognises (t.cell n), root := 0 } := by
  have hcells : t.root.cells none 0 = t.nodes.map t.cell := by
    have hroot := Tree.cells_eq_map_cell t.root.mem_preorder_self
    rwa [Tree.label_root, Tree.position, Tree.parent?_zero] at hroot
  rw [ofTree, buildSlot_eq, Pattern.ofTree, List.length_nil, numberFrom_root, hcells]
  cases Part.ofNode recognises t.root <;> simp [Except.map]

theorem exists_ofTree_iff_pattern :
    (∃ a, ofTree recognises t = .ok a) ↔ ∃ p, Pattern.ofTree recognises t = .ok p := by
  rw [ofTree_eq]
  cases Pattern.ofTree recognises t <;> simp [Except.map]

theorem ofTree_eq_error_iff_pattern {fault : Fault} :
    ofTree recognises t = .error fault ↔ Pattern.ofTree recognises t = .error fault := by
  rw [ofTree_eq]
  cases Pattern.ofTree recognises t <;> simp [Except.map]

/-- A stored pattern mirrors a tree if its slots have the numbers of the nodes, and each slot the text, tag
and features, the parent, the place, the children and the next sibling of its node, and is a wildcard
where the text is recognised. -/
structure Mirrors (recognises : String → Bool) (a : PatternArena) (t : Tree) : Prop where
  size : a.size = t.size
  root : a.root = t.root.label
  node : ∀ id, (a.slot? id).map (fun s => (s.head, s.isWildcard)) =
    (t.node? id).map fun n => (n.head, recognises n.text)
  parent : ∀ id, (a.slot? id).bind Slot.parent = (t.parent? id).map Formula.label
  position : ∀ id s, a.slot? id = some s → s.position = t.position id
  children : ∀ id, (a.slot? id).map Slot.children = (t.node? id).map fun n => n.children.map Formula.label
  next : ∀ id, a.nextSibling? id = (t.nextSibling? id).map Formula.label
  /-- The slots keep what the tree itself does when it is stored. -/
  cells : a.slots.map Slot.cell = (writeCells [] none 0 t.expr).1

section Stored

variable (h : ofTree recognises t = .ok a)

include h

theorem slots_of_ofTree : a.root = 0 ∧ a.slots = t.nodes.map fun n => Slot.ofCell recognises (t.cell n) := by
  rw [ofTree_eq] at h
  cases hp : Pattern.ofTree recognises t with
  | error fault =>
    rw [hp] at h
    cases h
  | ok p =>
    rw [hp] at h
    cases h
    exact ⟨rfl, rfl⟩

theorem slot?_of_ofTree (id : Nat) :
    a.slot? id = (t.node? id).map fun n => Slot.ofCell recognises (t.cell n) := by
  rw [slot?, (slots_of_ofTree h).2, List.getElem?_map, Tree.node?]

theorem slot?_label {n : Node} (hn : n ∈ t.nodes) :
    a.slot? n.label = some (Slot.ofCell recognises (t.cell n)) := by
  rw [slot?_of_ofTree h, Tree.node?_label hn, Option.map_some]

theorem children_of_recognised {n : Node} (hn : n ∈ t.nodes) (hr : recognises n.text = true) :
    n.children = [] :=
  (Pattern.exists_ofTree_iff_apart.mp (exists_ofTree_iff_pattern.mp ⟨a, h⟩)).1 n hn hr

theorem children_ofCell {n : Node} (hn : n ∈ t.nodes) :
    (Slot.ofCell recognises (t.cell n)).children = n.children.map Formula.label := by
  have hhead : (t.cell n).head.text = n.text := rfl
  cases hr : recognises n.text with
  | true => simp [Slot.ofCell, Slot.children, hhead, hr, children_of_recognised h hn hr]
  | false =>
    simp only [Slot.ofCell, Slot.children, hhead, hr]
    rfl

theorem parent_of_ofTree (id : Nat) : (a.slot? id).bind Slot.parent = (t.parent? id).map Formula.label := by
  rw [slot?_of_ofTree h]
  cases hn : t.node? id with
  | none =>
    cases hparent : t.parent? id with
    | none => rfl
    | some p =>
      obtain ⟨hp, before, c, after, hsplit, rfl⟩ := Tree.exists_child_of_parent? hparent
      rw [Tree.node?_label (Tree.mem_nodes_of_child hp (by simp [hsplit]))] at hn
      cases hn
  | some n =>
    obtain rfl := Tree.label_of_node? hn
    rfl

/-- The entry behind the place that is stored is the sibling that follows in the tree. -/
theorem nextSibling?_of_ofTree (id : Nat) : a.nextSibling? id = (t.nextSibling? id).map Formula.label := by
  have hparent := parent_of_ofTree h id
  cases htree : t.parent? id with
  | none =>
    have hnext : t.nextSibling? id = none := by
      rw [Tree.nextSibling?, Tree.siblingsAfter, htree]
      rfl
    rw [htree, Option.map_none] at hparent
    rw [hnext, nextSibling?]
    cases hs : a.slot? id with
    | none => rfl
    | some s =>
      rw [hs, Option.bind_some] at hparent
      rw [Option.bind_some, hparent]
      rfl
  | some p =>
    obtain ⟨hp, before, c, after, hsplit, rfl⟩ := Tree.exists_child_of_parent? htree
    have hc : c ∈ p.children := by simp [hsplit]
    have hslot := slot?_label h (Tree.mem_nodes_of_child hp hc)
    rw [hslot, htree, Option.bind_some, Option.map_some] at hparent
    have hposition : (Slot.ofCell recognises (t.cell c)).position = before.length :=
      Tree.position_of_child hp hsplit
    rw [nextSibling?, hslot, Option.bind_some, hparent, Option.bind_some, slot?_label h hp,
      Option.bind_some, children_ofCell h hp, hposition, List.getElem?_map, hsplit, getElem?_behind,
      Tree.nextSibling?_of_child hp hsplit]

theorem mirrors_of_ofTree : a.Mirrors recognises t where
  size := by rw [size, (slots_of_ofTree h).2, List.length_map, Tree.length_nodes]
  root := by rw [(slots_of_ofTree h).1, Tree.label_root]
  node id := by
    rw [slot?_of_ofTree h, Option.map_map]
    refine Option.map_congr fun n _ => ?_
    rw [Function.comp_apply, isWildcard_ofCell]
    rfl
  parent := parent_of_ofTree h
  position id s hs := by
    rw [slot?_of_ofTree h] at hs
    obtain ⟨n, hn, rfl⟩ := Option.map_eq_some_iff.mp hs
    rw [← Tree.label_of_node? hn]
    rfl
  children id := by
    rw [slot?_of_ofTree h, Option.map_map]
    exact Option.map_congr fun n hn => children_ofCell h (List.mem_of_getElem? hn)
  next := nextSibling?_of_ofTree h
  cells := by
    rw [(slots_of_ofTree h).2, List.map_map, Tree.writeCells_eq_map_cell, Tree.ofExpr_expr]
    refine List.map_congr_left fun n hn => ?_
    rw [Function.comp_apply, Slot.cell, children_ofCell h hn]
    rfl

end Stored

/-- A tree is stored as a pattern exactly if its recognised nodes are leaves and stand apart, and the slots
mirror its nodes. Otherwise the fault is that of the first node that cannot stand where it does. -/
theorem ofTree_mirrors_or_blames_first (recognises : String → Bool) (t : Tree) :
    ((∃ a, ofTree recognises t = .ok a) ↔
      (∀ n ∈ t.nodes, recognises n.text = true → n.children = []) ∧
        ∀ owner ∈ t.nodes, owner.children.IsChain fun n m =>
          ¬ (recognises n.text = true ∧ recognises m.text = true)) ∧
    (∀ a, ofTree recognises t = .ok a → a.Mirrors recognises t) ∧
    ∀ fault, ofTree recognises t = .error fault ↔
      ∃ before n after, t.nodes = before ++ n :: after ∧ t.Offends recognises n fault ∧
        ∀ m ∈ before, ∀ earlier, ¬ t.Offends recognises m earlier :=
  ⟨exists_ofTree_iff_pattern.trans Pattern.exists_ofTree_iff_apart, fun _ => mirrors_of_ofTree,
    fun _ => ofTree_eq_error_iff_pattern.trans Pattern.ofTree_eq_error_iff⟩

/-- In `f(w v) w(x)` the wildcard `v` is met before the one with a child. In `w w(x)` the second `w` is
blamed for its child and not for the `w` before it. In `f(w) v` the slots 1 and 3 are the children of
the sequence. -/
theorem ofTree_mirrors_or_blames_first_nested :
    let recognises : String → Bool := fun text => text == "w" || text == "v"
    let clashing : Tree := .ofExpr (.sequence
      [.application "f" [.leaf "w", .leaf "v"], .application "w" [.leaf "x"]])
    let branching : Tree := .ofExpr (.sequence [.leaf "w", .application "w" [.leaf "x"]])
    let sound : Tree := .ofExpr (.sequence [.application "f" [.leaf "w"], .leaf "v"])
    (∃ before n after, clashing.nodes = before ++ n :: after ∧
      clashing.Offends recognises n (.adjacentWildcards "w" "v") ∧
      ∀ m ∈ before, ∀ earlier, ¬ clashing.Offends recognises m earlier) ∧
    (∃ before n after, branching.nodes = before ++ n :: after ∧
      branching.Offends recognises n (.wildcardHasChildren "w") ∧
      ∀ m ∈ before, ∀ earlier, ¬ branching.Offends recognises m earlier) ∧
    ∃ a, ofTree recognises sound = .ok a ∧ a.Mirrors recognises sound ∧
      a.children 0 = [1, 3] ∧ a.nextSibling? 1 = some 3 ∧ a.isWildcard 3 = true := by
  intro recognises clashing branching sound
  obtain ⟨-, -, hclashing⟩ := ofTree_mirrors_or_blames_first recognises clashing
  obtain ⟨-, -, hbranching⟩ := ofTree_mirrors_or_blames_first recognises branching
  obtain ⟨-, hsound, -⟩ := ofTree_mirrors_or_blames_first recognises sound
  exact ⟨(hclashing _).mp rfl, (hbranching _).mp rfl, _, rfl, hsound _ rfl, rfl, rfl, rfl⟩

end PatternArena

end FormulaMatch
