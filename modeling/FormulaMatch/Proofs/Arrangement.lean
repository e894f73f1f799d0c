import FormulaMatch.Proofs.Building
import FormulaMatch.Proofs.Links
import FormulaMatch.Proofs.Numbering

/-! Arenas that are well arranged. An arena that was built is linked, cuts keep it so, and where the links
hold a next sibling is the entry behind in the parent's list, and never a wildcard behind another. -/

namespace FormulaMatch.PatternArena

variable {recognises : String → Bool} {source : Tree} {a : PatternArena} {s : Slot}

section Start

variable (h : ofTree recognises source = .ok a)

include h

theorem isWildcard_label {n : Node} (hn : n ∈ source.nodes) : a.isWildcard n.label = recognises n.text := by
  rw [isWildcard, slot?_label h hn, Option.any_some, isWildcard_ofCell]
  rfl

theorem labels_increasing {n : Node} (hn : n ∈ source.nodes) :
    (n.label :: n.children.map Formula.label).Pairwise (· < ·) := by
  obtain ⟨p, hp⟩ := exists_ofTree_iff_pattern.mp ⟨a, h⟩
  rw [← Pattern.map_source_allParts hp] at hn
  obtain ⟨q, hq, rfl⟩ := List.mem_map.mp hn
  have hincreasing := ((Pattern.keeps_of_ofTree hp).2.inOrder q hq).increasing
  have hlabels : (q.parts.map Part.source).map Formula.label = q.parts.map Part.id := by
    rw [List.map_map]
    exact List.map_congr_left fun c _ => c.label_source
  rwa [Part.label_source, Part.children_source, hlabels]

theorem linked_of_ofTree : a.Linked := by
  have hnode : ∀ i s, a.slot? i = some s →
      ∃ n ∈ source.nodes, n.label = i ∧ s = Slot.ofCell recognises (source.cell n) := by
    intro i s hs
    rw [slot?_of_ofTree h] at hs
    obtain ⟨n, hn, heq⟩ := Option.map_eq_some_iff.mp hs
    exact ⟨n, List.mem_of_getElem? hn, Tree.label_of_node? hn, heq.symm⟩
  refine ⟨⟨(slots_of_ofTree h).1, ?_⟩, fun i s hs k c hk => ?_, fun i s hs => ?_, fun i s hs => ?_,
    fun i s hs => ?_⟩
  · have hroot := slot?_label h source.root.mem_preorder_self
    rw [Tree.label_root] at hroot
    refine ⟨_, hroot, ?_⟩
    rw [Slot.ofCell, Tree.cell, Tree.label_root, Tree.parent?_zero]
    rfl
  · obtain ⟨n, hn, rfl, rfl⟩ := hnode i s hs
    rw [children_ofCell h hn, List.getElem?_map] at hk
    obtain ⟨m, hm, rfl⟩ := Option.map_eq_some_iff.mp hk
    obtain ⟨before, after, hsplit, rfl⟩ := exists_split_of_getElem? hm
    have hmem : m ∈ n.children := List.mem_of_getElem? hm
    refine ⟨_, slot?_label h (Tree.mem_nodes_of_child hn hmem), ?_, Tree.position_of_child hn hsplit⟩
    rw [Slot.ofCell, Tree.cell, Tree.parent?_of_child hn hmem, Option.map_some]
  · obtain ⟨n, hn, rfl, rfl⟩ := hnode i s hs
    cases hparent : source.parent? n.label with
    | none =>
      refine .inr ⟨?_, ?_⟩
      · rw [Slot.ofCell, Tree.cell, hparent, Option.map_none]
      · rw [Slot.ofCell, Tree.cell, Tree.position, hparent]
    | some p =>
      obtain ⟨hp, before, c, after, hsplit, hlabel⟩ := Tree.exists_child_of_parent? hparent
      refine .inl ⟨p.label, _, ?_, slot?_label h hp, ?_⟩
      · rw [Slot.ofCell, Tree.cell, hparent, Option.map_some]
      · have hposition : source.position n.label = before.length := by
          rw [← hlabel, Tree.position_of_child hp hsplit]
        rw [children_ofCell h hp, Slot.ofCell, Tree.cell, hposition, hsplit]
        simp [hlabel]
  · obtain ⟨n, hn, rfl, rfl⟩ := hnode i s hs
    rw [children_ofCell h hn]
    exact labels_increasing h hn
  · obtain ⟨n, hn, rfl, rfl⟩ := hnode i s hs
    have happart := (Pattern.exists_ofTree_iff_apart.mp (exists_ofTree_iff_pattern.mp ⟨a, h⟩)).2 n hn
    rw [List.isChain_iff_forall_rel_of_append_cons_cons] at happart
    rw [children_ofCell h hn, List.isChain_map, List.isChain_iff_forall_rel_of_append_cons_cons]
    intro c d before after hsplit
    have hchild : ∀ m ∈ n.children, a.isWildcard m.label = recognises m.text := fun m hm =>
      isWildcard_label h (Tree.mem_nodes_of_child hn hm)
    rw [hchild c (by simp [hsplit]), hchild d (by simp [hsplit])]
    exact happart hsplit

end Start

/-- How the slots of an arena stand to each other. -/
structure Arranged (a : PatternArena) : Prop where
  root : a.root = 0 ∧ ∃ s, a.slot? 0 = some s ∧ s.parent = none
  /-- Each entry of a list of children is a slot that keeps the owner as its parent, and its place. -/
  child : ∀ i k c, (a.children i)[k]? = some c →
    ∃ d, a.slot? c = some d ∧ d.parent = some i ∧ d.position = k
  owned : ∀ i s, a.slot? i = some s → i ≠ a.root →
    (∃! o, i ∈ a.children o) ∨ s.parent = none ∧ s.position = 0 ∧ ∀ o, i ∉ a.children o
  increasing : ∀ i, (∀ c ∈ a.children i, i < c) ∧ (a.children i).Pairwise (· < ·)
  childless : ∀ i, a.isWildcard i = true → a.children i = []
  spaced : ∀ i k c d, (a.children i)[k]? = some c → (a.children i)[k + 1]? = some d →
    ¬ (a.isWildcard c = true ∧ a.isWildcard d = true)
  next : ∀ i k c, (a.children i)[k]? = some c → a.nextSibling? c = (a.children i)[k + 1]?
  next_none : ∀ c, (∀ o, c ∉ a.children o) → a.nextSibling? c = none
  next_literal : ∀ c d, a.isWildcard c = true → a.nextSibling? c = some d → a.isWildcard d = false
  /-- Matching goes on to the children of a slot or to the sibling behind it. -/
  forward : ∀ i, (∀ c ∈ a.children i, i < c) ∧ ∀ d, a.nextSibling? i = some d → i < d

section Arrangement

variable (h : a.Linked) {i c d k : Nat}

theorem children_of_slot (hs : a.slot? i = some s) : a.children i = s.children := by
  rw [children, hs]
  rfl

theorem exists_slot?_of_mem (hc : c ∈ a.children i) : ∃ s, a.slot? i = some s ∧ s.children = a.children i :=
  exists_slot?_of_children rfl (List.ne_nil_of_mem hc)

include h

theorem Linked.exists_of_getElem? (hk : (a.children i)[k]? = some c) :
    ∃ s d, a.slot? i = some s ∧ s.children = a.children i ∧ a.slot? c = some d ∧ d.parent = some i ∧
      d.position = k := by
  obtain ⟨s, hs, hchildren⟩ := exists_slot?_of_mem (List.mem_of_getElem? hk)
  obtain ⟨d, hd, hparent, hposition⟩ := h.child i s hs k c (hchildren ▸ hk)
  exact ⟨s, d, hs, hchildren, hd, hparent, hposition⟩

theorem Linked.nextSibling?_eq (hk : (a.children i)[k]? = some c) :
    a.nextSibling? c = (a.children i)[k + 1]? := by
  obtain ⟨s, d, hs, hchildren, hd, hparent, hposition⟩ := h.exists_of_getElem? hk
  simp only [nextSibling?, hd, hparent, hs, Option.bind_some, hposition, hchildren]

theorem Linked.exists_of_parent (hs : a.slot? c = some s) {o : Nat} (hparent : s.parent = some o) :
    (a.children o)[s.position]? = some c := by
  rcases h.owned c s hs with ⟨o', u, hparent', hu, hentry⟩ | ⟨hnone, -⟩
  · rw [hparent, Option.some.injEq] at hparent'
    rw [hparent', children_of_slot hu, hentry]
  · rw [hparent] at hnone
    cases hnone

/-- A next sibling is the entry behind in the list of the same parent. -/
theorem Linked.exists_entry_of_nextSibling? (hnext : a.nextSibling? c = some d) :
    ∃ o k, (a.children o)[k]? = some c ∧ (a.children o)[k + 1]? = some d := by
  unfold nextSibling? at hnext
  obtain ⟨s, hs, hnext⟩ := Option.bind_eq_some_iff.mp hnext
  obtain ⟨o, hparent, hnext⟩ := Option.bind_eq_some_iff.mp hnext
  obtain ⟨u, hu, hnext⟩ := Option.bind_eq_some_iff.mp hnext
  refine ⟨o, s.position, h.exists_of_parent hs hparent, ?_⟩
  rw [children_of_slot hu, hnext]

theorem Linked.increasing_children (i : Nat) : (i :: a.children i).Pairwise (· < ·) := by
  cases hs : a.slot? i with
  | none => simp [children, hs]
  | some s =>
    rw [children_of_slot hs]
    exact h.increasing i s hs

theorem Linked.not_both_wildcards (hc : (a.children i)[k]? = some c) (hd : (a.children i)[k + 1]? = some d) :
    ¬ (a.isWildcard c = true ∧ a.isWildcard d = true) := by
  obtain ⟨s, hs, hchildren⟩ := exists_slot?_of_mem (List.mem_of_getElem? hc)
  have hspaced := h.spaced i s hs
  rw [hchildren, List.isChain_iff_forall_rel_of_append_cons_cons] at hspaced
  obtain ⟨before, after, hsplit, rfl⟩ := exists_split_of_getElem? hc
  rw [hsplit, getElem?_behind, List.head?_eq_some_iff] at hd
  obtain ⟨after, rfl⟩ := hd
  exact hspaced hsplit

theorem Linked.arranged : a.Arranged where
  root := h.root
  child i k c hk := by
    obtain ⟨-, d, -, -, hd⟩ := h.exists_of_getElem? hk
    exact ⟨d, hd⟩
  owned i s hs _ := by
    have hparent : ∀ o, i ∈ a.children o → s.parent = some o := by
      intro o hmem
      obtain ⟨k, hk⟩ := List.mem_iff_getElem?.mp hmem
      obtain ⟨-, d, -, -, hd, hparent, -⟩ := h.exists_of_getElem? hk
      rw [hs, Option.some.injEq] at hd
      rw [hd, hparent]
    rcases h.owned i s hs with ⟨o, u, ho, -, -⟩ | ⟨hnone, hzero⟩
    · refine .inl ⟨o, List.mem_of_getElem? (h.exists_of_parent hs ho), fun o' ho' => ?_⟩
      simpa [ho] using (hparent o' ho').symm
    · refine .inr ⟨hnone, hzero, fun o hmem => ?_⟩
      rw [hparent o hmem] at hnone
      cases hnone
  increasing i :=
    ⟨fun _ => List.rel_of_pairwise_cons (h.increasing_children i), (h.increasing_children i).tail⟩
  childless i hw := by
    unfold isWildcard at hw
    cases hs : a.slot? i with
    | none => simp [children, hs]
    | some s =>
      cases hk : s.kind with
      | literal ids => simp [hs, Slot.isWildcard, Slot.wildcardName?, hk] at hw
      | wildcard name => simp [children, hs, Slot.children, hk]
  spaced i k c d := h.not_both_wildcards
  next i k c := h.nextSibling?_eq
  next_none c hnone := by
    refine Option.eq_none_iff_forall_ne_some.mpr fun d hnext => ?_
    obtain ⟨o, k, hk, -⟩ := h.exists_entry_of_nextSibling? hnext
    exact hnone o (List.mem_of_getElem? hk)
  next_literal c d hw hnext := by
    obtain ⟨o, k, hc, hd⟩ := h.exists_entry_of_nextSibling? hnext
    exact Bool.eq_false_iff.mpr fun hw' => h.not_both_wildcards hc hd ⟨hw, hw'⟩
  forward i := by
    refine ⟨fun c hc => List.rel_of_pairwise_cons (h.increasing_children i) hc, fun d hnext => ?_⟩
    obtain ⟨o, k, hc, hd⟩ := h.exists_entry_of_nextSibling? hnext
    obtain ⟨hlt, rfl⟩ := List.getElem?_eq_some_iff.mp hc
    obtain ⟨hlt', rfl⟩ := List.getElem?_eq_some_iff.mp hd
    exact List.pairwise_iff_getElem.mp (h.increasing_children o).tail k (k + 1) hlt hlt' (Nat.lt_succ_self k)

end Arrangement

/-- Whatever first children are cut off a stored pattern, at whatever numbers, its slots keep their numbers,
texts, tags, features and kinds, and stand to each other as they should. -/
theorem removals_keep_links (h : ofTree recognises source = .ok a) (ids : List Nat) :
    (a.removes ids).size = a.size ∧
    (∀ id, ((a.removes ids).slot? id).map Slot.face = (a.slot? id).map Slot.face) ∧
    (a.removes ids).Arranged := by
  have hkeeps := (linked_of_ofTree h).removes ids
  exact ⟨hkeeps.size, hkeeps.face, hkeeps.linked.arranged⟩

/-- In `g(f(w x y) z)` the slot `f` is cut off `g`, and then `w` and `x` are cut off `f`, which is detached;
there is nothing to cut at the wildcard `w` nor at a number that no slot has. So `y` is the first child
of `f` and `z` that of `g`. -/
theorem removals_keep_links_detached :
    let source : Tree := .ofExpr (.sequence [.application "g"
      [.application "f" [.leaf "w", .leaf "x", .leaf "y"], .leaf "z"]])
    let ids := [1, 2, 3, 9, 2]
    ∃ a : PatternArena, ofTree (["w"].contains ·) source = .ok a ∧
      (a.removes ids).size = a.size ∧
      (∀ id, ((a.removes ids).slot? id).map Slot.face = (a.slot? id).map Slot.face) ∧
      (a.removes ids).Arranged ∧
      (a.removes ids).children 1 = [6] ∧ (a.removes ids).children 2 = [5] ∧
      [5, 6, 2, 3, 4].map (fun id => ((a.removes ids).slot? id).map fun s => (s.parent, s.position)) =
        [some (some 2, 0), some (some 1, 0), some (none, 0), some (none, 0), some (none, 0)] := by
  intro source ids
  obtain ⟨a, ha⟩ : ∃ a, ofTree (["w"].contains ·) source = .ok a := ⟨_, rfl⟩
  obtain ⟨hsize, hfaces, harranged⟩ := removals_keep_links ha ids
  refine ⟨a, ha, hsize, hfaces, harranged, ?_⟩
  cases ha
  exact ⟨rfl, rfl, rfl⟩

end FormulaMatch.PatternArena
