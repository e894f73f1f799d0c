import FormulaMatch.Proofs.Mirroring
import FormulaMatch.Proofs.Siblings

/-! Corresponding nodes in rows of the same shape: those at the same place, counted through the rows
with each node before its children. Their children correspond one by one. -/

namespace FormulaMatch

open Formula (preorders)

def Counterparts (ns ms : List Node) (n m : Node) : Prop :=
  (n, m) ∈ (preorders ns).zip (preorders ms)

variable {ns ms : List Node} {n m f g : Node}

theorem preorder_bare (f : Node) : f.bare.preorder = f.preorder.map Formula.bare := by
  induction f using Formula.induction with
  | node i h cs ih =>
    rw [Formula.bare_node, Formula.preorder, Formula.preorder, List.map_cons, Formula.bare_node,
      Formula.preorders_eq_flatMap, Formula.preorders_eq_flatMap, List.map_flatMap,
      List.flatMap_map, List.flatMap_congr ih]

theorem preorders_map_bare (ns : List Node) :
    preorders (ns.map Formula.bare) = (preorders ns).map Formula.bare := by
  rw [Formula.preorders_eq_flatMap, Formula.preorders_eq_flatMap, List.map_flatMap, List.flatMap_map]
  exact List.flatMap_congr fun n _ => preorder_bare n

theorem length_preorders_eq (h : ns.map Formula.bare = ms.map Formula.bare) :
    (preorders ns).length = (preorders ms).length := by
  rw [← List.length_map Formula.bare, ← preorders_map_bare, h, preorders_map_bare, List.length_map]

theorem counterparts_cons (h : f.bare = g.bare) : Counterparts (f :: ns) (g :: ms) n m ↔
    Counterparts [f] [g] n m ∨ Counterparts ns ms n m := by
  have hlen : f.preorder.length = g.preorder.length := by
    rw [← List.length_map Formula.bare, ← preorder_bare, h, preorder_bare, List.length_map]
  simp only [Counterparts, preorders, List.append_nil]
  rw [List.zip_append hlen, List.mem_append]

theorem counterparts_singleton :
    Counterparts [f] [g] n m ↔ n = f ∧ m = g ∨ Counterparts f.children g.children n m := by
  obtain ⟨i, h, cs⟩ := f
  obtain ⟨j, k, ds⟩ := g
  simp [Counterparts, preorders, Formula.preorder, Formula.children]

/-- Rows of the same shape correspond one by one. -/
theorem forall₂_counterparts (h : ns.map Formula.bare = ms.map Formula.bare) :
    List.Forall₂ (Counterparts ns ms) ns ms := by
  induction ns generalizing ms with
  | nil =>
    obtain rfl : ms = [] := by simpa using h.symm
    exact .nil
  | cons n ns ih =>
    cases ms with
    | nil => simp at h
    | cons m ms =>
      obtain ⟨hhead, htail⟩ := List.cons.inj h
      refine .cons ?_ ((ih htail).imp fun c d hcd => ?_)
      · exact (counterparts_cons hhead).mpr (.inl (counterparts_singleton.mpr (.inl ⟨rfl, rfl⟩)))
      · exact (counterparts_cons hhead).mpr (.inr hcd)

theorem mirrors_counterparts_of_forall
    (hns : ∀ n ∈ ns, ∀ m, n.bare = m.bare → Mirrors (Counterparts [n] [m]))
    (h : ns.map Formula.bare = ms.map Formula.bare) : Mirrors (Counterparts ns ms) := by
  induction ns generalizing ms with
  | nil =>
    intro n m hnm
    simp [Counterparts, preorders] at hnm
  | cons c ns ih =>
    cases ms with
    | nil => simp at h
    | cons d ms =>
      obtain ⟨hhead, htail⟩ := List.cons.inj h
      intro n m hnm
      rcases (counterparts_cons hhead).mp hnm with hnm | hnm
      · obtain ⟨htext, hcs⟩ := hns c List.mem_cons_self d hhead n m hnm
        exact ⟨htext, hcs.imp fun _ _ hcd => (counterparts_cons hhead).mpr (.inl hcd)⟩
      · obtain ⟨htext, hcs⟩ := ih (fun n hn => hns n (List.mem_cons_of_mem _ hn)) htail n m hnm
        exact ⟨htext, hcs.imp fun _ _ hcd => (counterparts_cons hhead).mpr (.inr hcd)⟩

theorem mirrors_counterparts_single (h : f.bare = g.bare) : Mirrors (Counterparts [f] [g]) := by
  induction f using Formula.induction generalizing g with
  | node i hd cs ih =>
    obtain ⟨htext, hcs⟩ := mirrors_bare _ _ h
    rw [forall₂_bare_iff] at hcs
    intro n m hnm
    rcases counterparts_singleton.mp hnm with ⟨rfl, rfl⟩ | hnm
    · refine ⟨htext, ?_⟩
      exact (forall₂_counterparts hcs).imp fun _ _ hcd => counterparts_singleton.mpr (.inr hcd)
    · obtain ⟨htext, hchildren⟩ :=
        mirrors_counterparts_of_forall (fun c hc _ => ih c hc) hcs n m hnm
      exact ⟨htext, hchildren.imp fun _ _ hcd => counterparts_singleton.mpr (.inr hcd)⟩

/-- Corresponding nodes have the same text and corresponding children. -/
theorem mirrors_counterparts (h : ns.map Formula.bare = ms.map Formula.bare) :
    Mirrors (Counterparts ns ms) :=
  mirrors_counterparts_of_forall (fun _ _ _ => mirrors_counterparts_single) h

/-- Below rows of the same shape, every node has exactly one counterpart. -/
theorem existsUnique_counterpart (hnodup : (preorders ns).Nodup)
    (h : ns.map Formula.bare = ms.map Formula.bare) (hn : n ∈ preorders ns) :
    ∃! m, Counterparts ns ms n m := by
  obtain ⟨k, hk, rfl⟩ := List.mem_iff_getElem.mp hn
  have hk' : k < (preorders ms).length := length_preorders_eq h ▸ hk
  refine ⟨(preorders ms)[k], ?_, fun m hm => ?_⟩
  · exact List.mem_iff_getElem.mpr ⟨k, by rw [List.length_zip]; omega, List.getElem_zip⟩
  · obtain ⟨j, hj, he⟩ := List.mem_iff_getElem.mp hm
    rw [List.getElem_zip, Prod.mk.injEq] at he
    obtain rfl := (hnodup.getElem_inj_iff).mp he.1
    exact he.2.symm

theorem Tree.nodup_preorders_topLevel (t : Tree) : (preorders t.topLevel).Nodup := by
  have hnodes : t.nodes.Nodup := .of_map Formula.label t.nodup_labels
  unfold topLevel
  split
  · have htail : preorders t.root.children = t.nodes.tail := by
      rw [nodes, Formula.preorder_eq, List.tail_cons]
    exact htail ▸ hnodes.tail
  · rw [preorders, preorders, List.append_nil]
    exact hnodes

end FormulaMatch
