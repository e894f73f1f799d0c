import FormulaMatch.Tree
import Mathlib.Data.List.Chain
import Mathlib.Data.List.Nodup
import Mathlib.Data.List.Perm.Basic

/-! Siblings in a numbered tree. Labels are distinct, so no node is a child of two nodes, and children
that stand side by side are siblings next to each other. -/

namespace FormulaMatch

namespace Formula

variable {ι : Type}

theorem mem_preorder_self (f : Formula ι) : f ∈ f.preorder := mem_preorder_iff.mpr (.inl rfl)

theorem mem_preorder_of_child {f g c : Formula ι} (hc : c ∈ f.children) (hg : g ∈ c.preorder) :
    g ∈ f.preorder :=
  mem_preorder_iff.mpr (.inr ⟨c, hc, hg⟩)

theorem preorder_trans {f g k : Formula ι} (hg : g ∈ f.preorder) (hk : k ∈ g.preorder) :
    k ∈ f.preorder := by
  induction f using induction with
  | node i h cs ih =>
    rcases mem_preorder_iff.mp hg with rfl | ⟨c, hc, hg⟩
    · exact hk
    · exact mem_preorder_of_child hc (ih c hc hg)

/-- Every node but the first is a child of exactly one node. -/
theorem flatMap_children_perm (f : Formula ι) :
    (f.preorder.flatMap children).Perm f.preorder.tail := by
  induction f using induction with
  | node i h cs ih =>
    have hinner : (cs.flatMap fun c => c.preorder.flatMap children).Perm
        (cs.flatMap fun c => c.preorder.tail) := List.Perm.flatMap_left cs ih
    have hcons : ∀ c : Formula ι, c :: c.preorder.tail = c.preorder := by
      intro c
      rw [preorder_eq, List.tail_cons]
    have hall := List.map_append_flatMap_perm cs id fun c => c.preorder.tail
    simp only [List.map_id, id_eq, hcons] at hall
    rw [preorder, List.tail_cons, preorders_eq_flatMap, List.flatMap_cons, List.flatMap_assoc]
    exact (hinner.append_left cs).trans hall

end Formula

/-! Lists whose elements own keyed lists: where no key occurs twice, the owner of a key is found by it, and
so is the entry behind it. -/

section Owners

variable {α β : Type} {kids : α → List β} {key : β → Nat} {c : β}

theorem find?_owner {xs : List α} (hnodup : (xs.flatMap fun x => (kids x).map key).Nodup) {x : α}
    (hx : x ∈ xs) (hc : c ∈ kids x) : xs.find? (fun y => (kids y).any fun d => key d == key c) = some x := by
  obtain ⟨before, after, rfl⟩ := List.append_of_mem hx
  rw [List.flatMap_append, List.flatMap_cons] at hnodup
  have hdisjoint := (List.nodup_append'.mp hnodup).2.2
  have hkey : key c ∈ (kids x).map key := List.mem_map_of_mem hc
  have hnone : before.find? (fun y => (kids y).any fun d => key d == key c) = none := by
    rw [List.find?_eq_none]
    intro y hy hany
    obtain ⟨d, hd, he⟩ := List.any_eq_true.mp hany
    have hmem : key c ∈ (kids y).map key := List.mem_map.mpr ⟨d, hd, by simpa using he⟩
    exact hdisjoint (List.mem_flatMap.mpr ⟨y, hy, hmem⟩) (List.mem_append_left _ hkey)
  have hself : ((kids x).any fun d => key d == key c) = true := List.any_eq_true.mpr ⟨c, hc, by simp⟩
  rw [List.find?_append, hnone, Option.none_or]
  exact List.find?_cons_of_pos hself

theorem key_ne_of_nodup {before after : List β} (hnodup : ((before ++ c :: after).map key).Nodup) :
    ∀ d ∈ before, key d ≠ key c := by
  rw [List.map_append, List.map_cons] at hnodup
  intro d hd he
  exact (List.nodup_append'.mp hnodup).2.2 (List.mem_map_of_mem hd) (by simp [he])

theorem dropWhile_key {before after : List β} (hnodup : ((before ++ c :: after).map key).Nodup) :
    (before ++ c :: after).dropWhile (fun d => key d != key c) = c :: after := by
  have hbefore : ∀ d ∈ before, (key d != key c) = true := by
    simpa using key_ne_of_nodup hnodup
  simp [List.dropWhile_append_of_pos hbefore]

theorem findIdx_key {before after : List β} (hnodup : ((before ++ c :: after).map key).Nodup) :
    (before ++ c :: after).findIdx (fun d => key d == key c) = before.length := by
  have hlt : before.length < (before ++ c :: after).length := by simp
  rw [List.findIdx_eq hlt]
  refine ⟨by simp, fun j hj => ?_⟩
  rw [List.getElem_append_left hj]
  simpa using key_ne_of_nodup hnodup _ (List.getElem_mem hj)

theorem exists_split_of_getElem? {xs : List β} {i : Nat} (h : xs[i]? = some c) :
    ∃ before after, xs = before ++ c :: after ∧ before.length = i := by
  obtain ⟨hi, rfl⟩ := List.getElem?_eq_some_iff.mp h
  exact ⟨xs.take i, xs.drop (i + 1), by simp, by simp; omega⟩

theorem getElem?_behind {before after : List β} :
    (before ++ c :: after)[before.length + 1]? = after.head? := by
  rw [List.getElem?_append_right (by omega), Nat.add_sub_cancel_left, List.getElem?_cons_succ,
    ← List.head?_eq_getElem?]

end Owners

namespace Tree

variable {t : Tree} {p c : Node}

theorem nodup_labels_children (t : Tree) :
    (t.nodes.flatMap fun n => n.children.map Formula.label).Nodup := by
  have hperm := t.root.flatMap_children_perm.map Formula.label
  rw [List.map_flatMap] at hperm
  exact hperm.nodup_iff.mpr (t.nodup_labels.sublist ((List.tail_sublist _).map _))

theorem nodup_labels_of_mem (hp : p ∈ t.nodes) : (p.children.map Formula.label).Nodup :=
  (List.nodup_flatMap.mp t.nodup_labels_children).1 p hp

theorem parent?_of_child (hp : p ∈ t.nodes) (hc : c ∈ p.children) : t.parent? c.label = some p :=
  find?_owner t.nodup_labels_children hp hc

theorem nextSibling?_of_child (hp : p ∈ t.nodes) {before after : List Node}
    (h : p.children = before ++ c :: after) : t.nextSibling? c.label = after.head? := by
  have hparent : t.parent? c.label = some p := parent?_of_child hp (by simp [h])
  have hnodup := nodup_labels_of_mem hp
  rw [h] at hnodup
  rw [nextSibling?, siblingsAfter, hparent]
  simp only [h, dropWhile_key hnodup, List.drop_one, List.tail_cons]

def Siblings (t : Tree) (row : List Node) : Prop :=
  row.IsChain fun n m => t.nextSibling? n.label = some m

theorem Siblings.of_isInfix {row run : List Node} (h : t.Siblings row) (hr : run <:+: row) :
    t.Siblings run := by
  obtain ⟨before, after, rfl⟩ := hr
  exact h.left_of_append.right_of_append

theorem siblings_children (hp : p ∈ t.nodes) : t.Siblings p.children := by
  rw [Siblings, List.isChain_iff_forall_rel_of_append_cons_cons]
  intro n m before after h
  exact nextSibling?_of_child hp h

theorem siblings_topLevel (t : Tree) : t.Siblings t.topLevel := by
  unfold topLevel
  split
  · exact siblings_children t.root.mem_preorder_self
  · exact .singleton _

theorem mem_nodes_of_topLevel {n m : Node} (hn : n ∈ t.topLevel) (hm : m ∈ n.preorder) :
    m ∈ t.nodes := by
  unfold topLevel at hn
  split at hn
  · exact Formula.mem_preorder_of_child hn hm
  · obtain rfl := List.mem_singleton.mp hn
    exact hm

end Tree

end FormulaMatch
