import FormulaMatch.Pattern.Trim
import FormulaMatch.Proofs.Sources
import FormulaMatch.Proofs.Tandem
import Mathlib.Data.List.Nodup

/-! Cutting first children off a pattern, or off its source before the pattern is made. Either way the
parts that can be reached have the same wording. -/

namespace FormulaMatch

namespace Formula

mutual

/-- The node where node `id` has lost its first child. -/
def trim (id : Nat) : Node → Node
  | .node i h cs => .node i h (if i = id then cs.drop 1 else trimAll id cs)

def trimAll (id : Nat) : List Node → List Node
  | [] => []
  | c :: cs => trim id c :: trimAll id cs

end

theorem trimAll_eq_map (id : Nat) (cs : List Node) : trimAll id cs = cs.map (trim id) := by
  induction cs with
  | nil => rfl
  | cons c cs ih => simp [trimAll, ih]

theorem trim_node (id i : Nat) (h : Head) (cs : List Node) :
    trim id (.node i h cs) = .node i h (if i = id then cs.drop 1 else cs.map (trim id)) := by
  rw [trim, trimAll_eq_map]

def trims (ids : List Nat) (n : Node) : Node := ids.foldl (fun n id => trim id n) n

theorem trims_concat (ids : List Nat) (id : Nat) (n : Node) :
    trims (ids ++ [id]) n = trim id (trims ids n) := by
  rw [trims, List.foldl_concat, trims]

end Formula

/-- The tree after first children were cut off from the nodes of these numbers, one after the other. They
keep their numbers meanwhile; what is left is numbered anew. -/
def Tree.trims (t : Tree) (ids : List Nat) : Tree :=
  .ofExpr (Formula.trims ids t.root).unlabel

def Pattern.trims (p : Pattern) (ids : List Nat) : Pattern :=
  ids.foldl (fun p id => (p.trim id).2) p

namespace Part

variable {recognises : String → Bool} {id : Nat} {p : Part}

theorem trim_literal (id i : Nat) (h : Head) (ps : List Part) :
    (literal i h ps).trim id = .literal i h (if i = id then ps.drop 1 else ps.map (trim id)) := by
  rw [trim, trimAll_eq_map]

theorem isWildcard_trim (id : Nat) (p : Part) : (p.trim id).isWildcard = p.isWildcard := by
  cases p <;> simp [trim, isWildcard]

theorem source_trim (id : Nat) (p : Part) : (p.trim id).source = Formula.trim id p.source := by
  induction p using induction with
  | wildcard i h => simp [trim, Formula.trim_node]
  | literal i h ps ih =>
    rw [trim_literal, source_literal, source_literal, Formula.trim_node]
    split
    · rw [List.map_drop]
    · rw [List.map_map, List.map_map]
      exact congrArg (Formula.node i h) (List.map_congr_left ih)

/-- A cut changes no part but by taking its first child or by a cut further down. -/
theorem forall_preorder_trim {P : Part → Prop}
    (hdrop : ∀ i h ps, P (.literal i h ps) → P (.literal i h (ps.drop 1)))
    (hmap : ∀ i h ps, P (.literal i h ps) → P (.literal i h (ps.map (trim id))))
    (hp : ∀ q ∈ p.preorder, P q) : ∀ q ∈ (p.trim id).preorder, P q := by
  induction p using induction with
  | wildcard i h => exact hp
  | literal i h ps ih =>
    rw [preorder, List.forall_mem_cons, preorders_eq_flatMap] at hp
    obtain ⟨hself, hin⟩ := hp
    rw [trim_literal, preorder, List.forall_mem_cons, preorders_eq_flatMap]
    split
    · refine ⟨hdrop i h ps hself, fun q hq => hin q ?_⟩
      obtain ⟨p, hp, hq⟩ := List.mem_flatMap.mp hq
      exact List.mem_flatMap.mpr ⟨p, List.mem_of_mem_drop hp, hq⟩
    · refine ⟨hmap i h ps hself, fun q hq => ?_⟩
      rw [List.flatMap_map] at hq
      obtain ⟨p, hp, hq⟩ := List.mem_flatMap.mp hq
      exact ih p hp (fun r hr => hin r (List.mem_flatMap.mpr ⟨p, hp, hr⟩)) q hq

theorem spaced_map_trim {ps : List Part} : Spaced (ps.map (trim id)) ↔ Spaced ps := by
  simp only [Spaced, List.isChain_map, isWildcard_trim]

theorem Lawful.trim (h : p.Lawful recognises) (id : Nat) : (p.trim id).Lawful recognises :=
  forall_preorder_trim (fun _ _ _ ⟨hr, hspaced⟩ => ⟨hr, hspaced.drop 1⟩)
    (fun _ _ _ ⟨hr, hspaced⟩ => ⟨hr, spaced_map_trim.mpr hspaced⟩) h

theorem sublist_ids_of_forall {ps : List Part}
    (h : ∀ p ∈ ps, ((p.trim id).preorder.map Part.id).Sublist (p.preorder.map Part.id)) :
    ((preorders (ps.map (trim id))).map Part.id).Sublist ((preorders ps).map Part.id) := by
  induction ps with
  | nil => exact List.Sublist.refl _
  | cons p ps ih =>
    obtain ⟨hp, hps⟩ := List.forall_mem_cons.mp h
    simp only [List.map_cons, preorders, List.map_append]
    exact hp.append (ih hps)

theorem sublist_ids_trim (id : Nat) (p : Part) :
    ((p.trim id).preorder.map Part.id).Sublist (p.preorder.map Part.id) := by
  induction p using induction with
  | wildcard i h => simp [trim]
  | literal i h ps ih =>
    rw [trim_literal, preorder, preorder, List.map_cons, List.map_cons]
    refine List.Sublist.cons_cons _ ?_
    split
    · cases ps with
      | nil => exact List.Sublist.refl _
      | cons p ps =>
        simp only [List.drop_one, List.tail_cons, preorders, List.map_append]
        exact List.sublist_append_right _ _
    · exact sublist_ids_of_forall ih

theorem trim_of_childless (h : ∀ q ∈ p.preorder, q.id = id → q.parts = []) : p.trim id = p := by
  induction p using induction with
  | wildcard i hd => rfl
  | literal i hd ps ih =>
    rw [preorder, List.forall_mem_cons, preorders_eq_flatMap] at h
    obtain ⟨hself, hin⟩ := h
    have hps : ps.map (trim id) = ps := by
      rw [List.map_congr_left fun p hp => ih p hp fun q hq => hin q (List.mem_flatMap.mpr ⟨p, hp, hq⟩),
        List.map_id']
    rw [trim_literal, hps]
    split
    · rename_i hid
      have hnone : ps = [] := hself hid
      rw [hnone, List.drop_nil]
    · rfl

end Part

namespace Pattern

variable {recognises : String → Bool} {p : Pattern} {n : Node}

theorem part?_of_mem (h : (p.root.preorder.map Part.id).Nodup) {q : Part} (hq : q ∈ p.root.preorder) :
    p.part? q.id = some q := by
  have hsome : (p.root.preorder.find? fun r => r.id == q.id).isSome = true :=
    List.find?_isSome.mpr ⟨q, hq, beq_self_eq_true q.id⟩
  obtain ⟨r, hr⟩ := Option.isSome_iff_exists.mp hsome
  have hid : r.id = q.id := by simpa using List.find?_some hr
  -- What was cut off is searched last, and no two parts that can be reached share a number.
  have hsame : r = q := List.inj_on_of_nodup_map h (List.mem_of_find?_eq_some hr) hq hid
  rw [part?, allParts, Part.preorders, List.find?_append, hr, hsame, Option.some_or]

/-- Whether a part is found at all makes no difference to the root. -/
theorem root_trim (h : (p.root.preorder.map Part.id).Nodup) (id : Nat) :
    (p.trim id).2.root = p.root.trim id := by
  unfold trim
  split
  · rfl
  · rename_i hnone
    refine (Part.trim_of_childless fun q hq hid => ?_).symm
    rw [← hid, part?_of_mem h hq, Option.bind_some] at hnone
    exact List.head?_eq_none_iff.mp hnone

/-- The root was made from `n` by the rules for patterns, and its parts have different numbers. -/
structure Follows (recognises : String → Bool) (p : Pattern) (n : Node) : Prop where
  source : p.root.source = n
  lawful : p.root.Lawful recognises
  distinct : (p.root.preorder.map Part.id).Nodup

namespace Follows

theorem of_ofTree {source : Tree} (hp : ofTree recognises source = .ok p) :
    p.Follows recognises source.root := by
  obtain ⟨hsource, hlawful, -⟩ := ofTree_eq_ok_iff.mp hp
  refine ⟨hsource, hlawful, ?_⟩
  rw [← Part.map_label_preorder_source, hsource, source.numbered]
  exact List.nodup_range

theorem trim (h : p.Follows recognises n) (id : Nat) :
    (p.trim id).2.Follows recognises (Formula.trim id n) := by
  have hroot := root_trim h.distinct id
  refine ⟨?_, ?_, ?_⟩
  · rw [hroot, Part.source_trim, h.source]
  · rw [hroot]
    exact h.lawful.trim id
  · rw [hroot]
    exact h.distinct.sublist (Part.sublist_ids_trim id p.root)

theorem trims (h : p.Follows recognises n) (ids : List Nat) :
    (p.trims ids).Follows recognises (Formula.trims ids n) :=
  List.foldl_rel h fun id _ _ _ hab => hab.trim id

theorem exists_ofTree {source : Tree} {ids : List Nat}
    (h : p.Follows recognises (Formula.trims ids source.root)) :
    ∃ q, ofTree recognises (source.trims ids) = .ok q ∧ p.SameWording q := by
  have hunlabel : (source.trims ids).root.unlabel = p.root.source.unlabel := by
    rw [h.source, Tree.trims, Tree.ofExpr, Formula.unlabel_numberFrom, Formula.unlabel_expr]
  have hbare : p.root.source.bare = (source.trims ids).root.bare := by
    rw [← Formula.bare_unlabel, ← hunlabel, Formula.bare_unlabel]
  have hhead : p.root.source.head = (source.trims ids).root.head := by
    rw [← Formula.head_unlabel, ← hunlabel, Formula.head_unlabel]
  refine Pattern.exists_ofTree h.lawful hbare ?_
  rw [Formula.isSequence, hhead]
  rfl

theorem trims_concat_of_childless {source : Tree} {ids : List Nat} {id : Nat}
    (h : (p.trims ids).Follows recognises (Formula.trims ids source.root))
    (hid : ∀ q ∈ (p.trims ids).root.preorder, q.id = id → q.parts = []) :
    (p.trims (ids ++ [id])).root = (p.trims ids).root ∧ source.trims (ids ++ [id]) = source.trims ids := by
  have hroot : (p.trims ids).root.trim id = (p.trims ids).root := Part.trim_of_childless hid
  constructor
  · rw [Pattern.trims, List.foldl_concat]
    exact (root_trim h.distinct id).trans hroot
  · rw [Tree.trims, Tree.trims, Formula.trims_concat, ← h.source, ← Part.source_trim, hroot]

end Follows

end Pattern

end FormulaMatch
