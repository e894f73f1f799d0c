import FormulaMatch.Proofs.Shape
import FormulaMatch.Proofs.Spacing
import FormulaMatch.Proofs.Wording

/-! The nodes that parts are made from. A part keeps its node, so making parts from nodes is undone by
going back to the node, and a node becomes a part exactly if it goes back from a lawful one. -/

namespace FormulaMatch

namespace Part

mutual

/-- The node that the part was made from. -/
def source : Part → Node
  | .literal i h ps => .node i h (sources ps)
  | .wildcard i h => .node i h []

def sources : List Part → List Node
  | [] => []
  | p :: ps => p.source :: sources ps

end

theorem sources_eq_map (ps : List Part) : sources ps = ps.map source := by
  induction ps with
  | nil => rfl
  | cons p ps ih => simp [sources, ih]

@[simp] theorem source_literal (i : Nat) (h : Head) (ps : List Part) :
    (literal i h ps).source = .node i h (ps.map source) := by
  rw [source, sources_eq_map]

@[simp] theorem source_wildcard (i : Nat) (h : Head) : (wildcard i h).source = .node i h [] := by
  rw [source]

theorem head_source (p : Part) : p.source.head = p.head := by
  cases p <;> simp [Formula.head, head]

theorem children_source (p : Part) : p.source.children = p.parts.map source := by
  cases p <;> simp [Formula.children, parts]

theorem label_source (p : Part) : p.source.label = p.id := by
  cases p <;> simp [Formula.label, id]

theorem map_source_preorder (p : Part) : p.preorder.map source = p.source.preorder := by
  induction p using induction with
  | wildcard i h => simp [preorder, Formula.preorder, Formula.preorders]
  | literal i h ps ih =>
    rw [source_literal, Formula.preorder, preorder, Formula.preorders_eq_flatMap, preorders_eq_flatMap,
      List.map_cons, List.map_flatMap, List.flatMap_map, List.flatMap_congr ih, source_literal]

theorem map_label_preorder_source (p : Part) :
    p.source.preorder.map Formula.label = p.preorder.map id := by
  rw [← map_source_preorder, List.map_map]
  exact List.map_congr_left fun q _ => q.label_source

/-- The wildcards are the parts whose texts are recognised, and no two of them are neighbours. -/
def Lawful (recognises : String → Bool) (p : Part) : Prop :=
  ∀ q ∈ p.preorder, recognises q.text = q.isWildcard ∧ Spaced q.parts

variable {recognises : String → Bool} {p : Part} {ps : List Part} {left : Option String}
  {cs : List Node}

theorem lawful_wildcard {i : Nat} {h : Head} :
    Lawful recognises (.wildcard i h) ↔ recognises h.text = true := by
  simp [Lawful, preorder, isWildcard, text, head, parts, Spaced]

theorem lawful_literal {i : Nat} {h : Head} : Lawful recognises (.literal i h ps) ↔
    recognises h.text = false ∧ Spaced ps ∧ ∀ p ∈ ps, p.Lawful recognises := by
  have hin : (∀ q ∈ preorders ps, recognises q.text = q.isWildcard ∧ Spaced q.parts) ↔
      ∀ p ∈ ps, p.Lawful recognises := by
    simp only [preorders_eq_flatMap, List.mem_flatMap, Lawful]
    exact ⟨fun hall p hp q hq => hall q ⟨p, hp, hq⟩, fun hall q ⟨p, hp, hq⟩ => hall p hp q hq⟩
  rw [Lawful, preorder, List.forall_mem_cons, hin, and_assoc]
  rfl

theorem ofNode_eq_ok_iff_cases {i : Nat} {h : Head} : ofNode recognises (.node i h cs) = .ok p ↔
    (recognises h.text = true ∧ cs = [] ∧ p = .wildcard i h) ∨
      (recognises h.text = false ∧ ∃ ps, ofSiblings recognises none cs = .ok ps ∧
        p = .literal i h ps) := by
  rw [ofNode]
  cases recognises h.text with
  | true => cases cs <;> simp [eq_comm]
  | false => cases ofSiblings recognises none cs <;> simp [eq_comm]

theorem ofSiblings_cons_eq_ok_iff {c : Node} :
    ofSiblings recognises left (c :: cs) = .ok ps ↔ ∃ p qs, ps = p :: qs ∧
      ofNode recognises c = .ok p ∧ (left.isSome = true → p.isWildcard = false) ∧
      ofSiblings recognises p.wildcardName? cs = .ok qs := by
  constructor
  · intro h
    rw [ofSiblings] at h
    split at h
    · cases h
    · rename_i p hp
      split at h
      · cases h
      · rename_i hadjacent
        split at h
        · rename_i qs hqs
          cases h
          refine ⟨p, qs, rfl, hp, fun hleft => ?_, hqs⟩
          obtain ⟨first, rfl⟩ := Option.isSome_iff_exists.mp hleft
          cases hname : p.wildcardName? with
          | none => rw [isWildcard_eq, hname, Option.isSome_none]
          | some second => exact absurd hname (hadjacent first second rfl)
        · cases h
  · rintro ⟨p, qs, rfl, hp, hleft, hqs⟩
    rw [ofSiblings, hp]
    rw [isWildcard_eq, Option.isSome_eq_false_iff, Option.isNone_iff_eq_none] at hleft
    cases left with
    | none => simp only [hqs]
    | some first =>
      rw [hleft rfl] at hqs
      simp only [hleft rfl, hqs]

theorem ofSiblings_eq_ok_iff_of_forall
    (hcs : ∀ c ∈ cs, ∀ p, ofNode recognises c = .ok p ↔ p.source = c ∧ p.Lawful recognises) :
    ofSiblings recognises left cs = .ok ps ↔ ps.map source = cs ∧ Spaced ps ∧
      (∀ p ∈ ps, p.Lawful recognises) ∧
      ∀ q ∈ ps.head?, left.isSome = true → q.isWildcard = false := by
  induction cs generalizing left ps with
  | nil =>
    cases ps <;> simp [ofSiblings, Spaced]
  | cons c cs ih =>
    have hc := hcs c List.mem_cons_self
    rw [ofSiblings_cons_eq_ok_iff]
    constructor
    · rintro ⟨p, qs, rfl, hp, hleft, hqs⟩
      obtain ⟨hsource, hlawful⟩ := (hc p).mp hp
      obtain ⟨hsources, hspaced, hall, hhead⟩ := (ih fun d hd => hcs d (List.mem_cons_of_mem _ hd)).mp hqs
      refine ⟨by rw [List.map_cons, hsource, hsources], spaced_cons.mpr ⟨fun q hq hw => ?_, hspaced⟩,
        List.forall_mem_cons.mpr ⟨hlawful, hall⟩, fun q hq => ?_⟩
      · exact hhead q hq (isWildcard_eq p ▸ hw)
      · obtain rfl : p = q := by simpa using hq
        exact hleft
    · rintro ⟨hsources, hspaced, hall, hhead⟩
      obtain ⟨p, qs, rfl, hsource, hqs⟩ := List.map_eq_cons_iff.mp hsources
      obtain ⟨hlawful, hall⟩ := List.forall_mem_cons.mp hall
      obtain ⟨hnext, hspaced⟩ := spaced_cons.mp hspaced
      refine ⟨p, qs, rfl, (hc p).mpr ⟨hsource, hlawful⟩, hhead p rfl, ?_⟩
      refine (ih fun d hd => hcs d (List.mem_cons_of_mem _ hd)).mpr ⟨hqs, hspaced, hall, ?_⟩
      intro q hq hw
      exact hnext q hq (isWildcard_eq p ▸ hw)

/-- A node becomes exactly the lawful part that goes back to it. -/
theorem ofNode_eq_ok_iff {n : Node} :
    ofNode recognises n = .ok p ↔ p.source = n ∧ p.Lawful recognises := by
  induction n using Formula.induction generalizing p with
  | node i h cs ih =>
    have hall : ∀ {ps}, ofSiblings recognises none cs = .ok ps ↔
        ps.map source = cs ∧ Spaced ps ∧ ∀ p ∈ ps, p.Lawful recognises := by
      intro ps
      rw [ofSiblings_eq_ok_iff_of_forall fun c hc p => ih c hc]
      simp
    rw [ofNode_eq_ok_iff_cases]
    constructor
    · rintro (⟨hr, rfl, rfl⟩ | ⟨hr, ps, hps, rfl⟩)
      · exact ⟨source_wildcard i h, lawful_wildcard.mpr hr⟩
      · obtain ⟨hsources, hspaced, hlawful⟩ := hall.mp hps
        exact ⟨by rw [source_literal, hsources], lawful_literal.mpr ⟨hr, hspaced, hlawful⟩⟩
    · rintro ⟨hsource, hlawful⟩
      cases p with
      | wildcard j k =>
        rw [source_wildcard, Formula.node.injEq] at hsource
        obtain ⟨rfl, rfl, rfl⟩ := hsource
        exact .inl ⟨lawful_wildcard.mp hlawful, rfl, rfl⟩
      | literal j k ps =>
        rw [source_literal, Formula.node.injEq] at hsource
        obtain ⟨rfl, rfl, hsources⟩ := hsource
        obtain ⟨hr, hspaced, hlawful⟩ := lawful_literal.mp hlawful
        exact .inr ⟨hr, ps, hall.mpr ⟨hsources, hspaced, hlawful⟩, rfl⟩

theorem lawful_bare : p.bare.Lawful recognises ↔ p.Lawful recognises := by
  induction p using induction with
  | wildcard i h => rw [bare_wildcard, lawful_wildcard, lawful_wildcard]
  | literal i h ps ih =>
    have hspaced : Spaced (ps.map bare) ↔ Spaced ps := by
      simp [Spaced, List.isChain_map]
    rw [bare_literal, lawful_literal, lawful_literal, hspaced, List.forall_mem_map]
    exact and_congr_right fun _ => and_congr_right fun _ => forall₂_congr ih

theorem exists_sources_of_forall
    (hps : ∀ p ∈ ps, ∀ n : Node, p.source.bare = n.bare → ∃ q : Part, q.source = n ∧ q.bare = p.bare)
    (h : (ps.map source).map Formula.bare = cs.map Formula.bare) :
    ∃ qs : List Part, qs.map source = cs ∧ qs.map bare = ps.map bare := by
  induction ps generalizing cs with
  | nil =>
    obtain rfl : cs = [] := by simpa using h.symm
    exact ⟨[], rfl, rfl⟩
  | cons p ps ih =>
    cases cs with
    | nil => simp at h
    | cons c cs =>
      obtain ⟨hc, hcs⟩ := List.cons.inj h
      obtain ⟨q, hq, hbare⟩ := hps p List.mem_cons_self c hc
      obtain ⟨qs, hqs, hbares⟩ := ih (fun p hp => hps p (List.mem_cons_of_mem _ hp)) hcs
      exact ⟨q :: qs, by rw [List.map_cons, hq, hqs], by rw [List.map_cons, hbare, hbares]; rfl⟩

theorem exists_source {n : Node} (h : p.source.bare = n.bare) :
    ∃ q : Part, q.source = n ∧ q.bare = p.bare := by
  induction p using induction generalizing n with
  | wildcard i hd =>
    obtain ⟨j, k, ds⟩ := n
    simp only [source_wildcard, Formula.bare_node, Formula.node.injEq, Head.mk.injEq] at h
    obtain ⟨-, ⟨htext, -⟩, hds⟩ := h
    obtain rfl : ds = [] := by simpa using hds.symm
    exact ⟨.wildcard j k, source_wildcard j k, by simp [htext]⟩
  | literal i hd ps ih =>
    obtain ⟨j, k, ds⟩ := n
    simp only [source_literal, Formula.bare_node, Formula.node.injEq, Head.mk.injEq] at h
    obtain ⟨-, ⟨htext, -⟩, hds⟩ := h
    obtain ⟨qs, hqs, hbares⟩ := exists_sources_of_forall (fun p hp _ => ih p hp) hds
    exact ⟨.literal j k qs, by rw [source_literal, hqs], by simp [htext, hbares]⟩

/-- Whether a node becomes a part, and of which wording, is decided by its shape. -/
theorem exists_ofNode {n m : Node} (h : n.bare = m.bare) (hp : ofNode recognises n = .ok p) :
    ∃ q, ofNode recognises m = .ok q ∧ q.bare = p.bare := by
  obtain ⟨hsource, hlawful⟩ := ofNode_eq_ok_iff.mp hp
  obtain ⟨q, hq, hbare⟩ := exists_source (hsource ▸ h)
  exact ⟨q, ofNode_eq_ok_iff.mpr ⟨hq, lawful_bare.mp (hbare ▸ lawful_bare.mpr hlawful)⟩, hbare⟩

end Part

namespace Pattern

variable {recognises : String → Bool} {source : Tree} {p : Pattern}

theorem ofTree_eq_ok_iff : ofTree recognises source = .ok p ↔
    p.root.source = source.root ∧ p.root.Lawful recognises ∧ p.detached = [] := by
  obtain ⟨root, detached⟩ := p
  rw [ofTree, ← and_assoc, ← Part.ofNode_eq_ok_iff]
  cases Part.ofNode recognises source.root <;> simp [eq_comm]

theorem map_source_topLevel (h : p.root.source = source.root) :
    p.topLevel.map Part.source = source.topLevel := by
  have hhead : source.root.isSequence = p.root.head.isAnonymous .sequence := by
    rw [Formula.isSequence, ← h, Part.head_source]
  unfold topLevel Tree.topLevel
  rw [hhead]
  split
  · rw [← h, Part.children_source]
  · rw [List.map_singleton, h]

theorem exists_ofTree (hlawful : p.root.Lawful recognises) (h : p.root.source.bare = source.root.bare)
    (hwrap : p.root.source.isSequence = source.root.isSequence) :
    ∃ q, ofTree recognises source = .ok q ∧ p.SameWording q := by
  obtain ⟨root, hroot, hbare⟩ := Part.exists_ofNode h (Part.ofNode_eq_ok_iff.mpr ⟨rfl, hlawful⟩)
  obtain ⟨hsource, -⟩ := Part.ofNode_eq_ok_iff.mp hroot
  refine ⟨⟨root, []⟩, by rw [ofTree, hroot], hbare.symm, ?_⟩
  rw [Formula.isSequence, Formula.isSequence, ← hsource, Part.head_source, Part.head_source] at hwrap
  exact hwrap

end Pattern

end FormulaMatch
