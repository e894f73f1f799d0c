import FormulaMatch.Proofs.Siblings
import FormulaMatch.Proofs.Sources

/-! Which trees become patterns. A tree is at fault at the nodes that are recognised but cannot stand where
they do, and the first of them is blamed. -/

namespace FormulaMatch

namespace Formula

mutual

/-- The nodes of a formula, each before its children and with the sibling on its left. -/
def walk (left : Option Node) : Node → List (Option Node × Node)
  | .node i h cs => (left, .node i h cs) :: walkRow none cs

def walkRow (left : Option Node) : List Node → List (Option Node × Node)
  | [] => []
  | c :: cs => walk left c ++ walkRow (some c) cs

end

variable {left : Option Node} {n : Node} {cs : List Node} {entry : Option Node × Node}

theorem map_snd_walk (left : Option Node) (n : Node) : (walk left n).map Prod.snd = n.preorder := by
  induction n using induction generalizing left with
  | node i h cs ih =>
    have hrow : ∀ left, (walkRow left cs).map Prod.snd = preorders cs := by
      induction cs with
      | nil => exact fun _ => rfl
      | cons c cs ihcs =>
        obtain ⟨hc, hcs⟩ := List.forall_mem_cons.mp ih
        intro left
        rw [walkRow, List.map_append, hc, ihcs hcs, preorders]
    rw [walk, List.map_cons, hrow, preorder]

theorem mem_walkRow_iff : entry ∈ walkRow left cs ↔
    ∃ before c after, cs = before ++ c :: after ∧ entry ∈ walk (before.getLast?.or left) c := by
  induction cs generalizing left with
  | nil => simp [walkRow]
  | cons c cs ih =>
    rw [walkRow, List.mem_append, ih]
    constructor
    · rintro (hc | ⟨before, d, after, rfl, hd⟩)
      · exact ⟨[], c, cs, rfl, hc⟩
      · refine ⟨c :: before, d, after, rfl, ?_⟩
        rw [List.getLast?_cons, Option.some_or]
        cases hb : before.getLast? <;> simpa [hb] using hd
    · rintro ⟨_ | ⟨b, before⟩, d, after, hsplit, hd⟩
      · obtain ⟨rfl, rfl⟩ := List.cons.inj hsplit
        exact .inl hd
      · obtain ⟨rfl, rfl⟩ := List.cons.inj hsplit
        refine .inr ⟨before, d, after, rfl, ?_⟩
        rw [List.getLast?_cons, Option.some_or] at hd
        cases hb : before.getLast? <;> simpa [hb] using hd

theorem mem_walk_iff : entry ∈ walk left n ↔ entry = (left, n) ∨ ∃ owner ∈ n.preorder,
    ∃ before after, owner.children = before ++ entry.2 :: after ∧ entry.1 = before.getLast? := by
  induction n using induction generalizing left with
  | node i h cs ih =>
    rw [walk, List.mem_cons, mem_walkRow_iff, preorder, preorders_eq_flatMap]
    refine or_congr_right ?_
    simp only [Option.or_none]
    constructor
    · rintro ⟨before, c, after, rfl, hc⟩
      have hmem : c ∈ before ++ c :: after := by simp
      rcases (ih c hmem).mp hc with rfl | ⟨owner, howner, hrest⟩
      · exact ⟨_, List.mem_cons_self, before, after, rfl, rfl⟩
      · exact ⟨owner, List.mem_cons_of_mem _ (List.mem_flatMap.mpr ⟨c, hmem, howner⟩), hrest⟩
    · rintro ⟨owner, howner, before, after, hsplit, hleft⟩
      rcases List.mem_cons.mp howner with rfl | howner
      · have hcs : cs = before ++ entry.2 :: after := hsplit
        exact ⟨before, entry.2, after, hcs, (ih _ (by simp [hcs])).mpr (.inl (Prod.ext hleft rfl))⟩
      · obtain ⟨c, hc, hin⟩ := List.mem_flatMap.mp howner
        obtain ⟨pre, post, rfl⟩ := List.append_of_mem hc
        exact ⟨pre, c, post, rfl, (ih c hc).mpr (.inr ⟨owner, hin, before, after, hsplit, hleft⟩)⟩

end Formula

/-- A recognised node of a tree is at fault where it has children, and where it has none but the sibling on
its left is recognised as well. -/
inductive Tree.Offends (t : Tree) (recognises : String → Bool) (n : Node) : Fault → Prop
  | children (recognised : recognises n.text = true) (children : n.children ≠ []) :
    Offends t recognises n (.wildcardHasChildren n.text)
  | adjacent {owner left : Node} {before after : List Node} (mem : owner ∈ t.nodes)
    (row : owner.children = before ++ left :: n :: after) (left_recognised : recognises left.text = true)
    (recognised : recognises n.text = true) (leaf : n.children = []) :
    Offends t recognises n (.adjacentWildcards left.text n.text)

open Formula (walk walkRow)

def fault? {α : Type} : Except Fault α → Option Fault
  | .ok _ => none
  | .error fault => some fault

def wildcardOf (recognises : String → Bool) (n? : Option Node) : Option String :=
  n?.bind fun n => if recognises n.text then some n.text else none

theorem wildcardOf_eq_some_iff {recognises : String → Bool} {n? : Option Node} {name : String} :
    wildcardOf recognises n? = some name ↔ ∃ n, n? = some n ∧ recognises n.text = true ∧ n.text = name := by
  simp [wildcardOf, Option.bind_eq_some_iff]

/-- The fault of a node that stands to the right of a wildcard and would be one itself. -/
def clash? (recognises : String → Bool) (left : Option Node) (n : Node) : Option Fault :=
  (wildcardOf recognises left).bind fun first =>
    (wildcardOf recognises (some n)).map fun second => .adjacentWildcards first second

def offence? (recognises : String → Bool) (entry : Option Node × Node) : Option Fault :=
  if recognises entry.2.text && !entry.2.isLeaf then some (.wildcardHasChildren entry.2.text)
  else clash? recognises entry.1 entry.2

namespace Part

variable {recognises : String → Bool} {n : Node} {p : Part} {left : Option Node} {cs : List Node}

theorem wildcardName?_of_ofNode (h : ofNode recognises n = .ok p) :
    p.wildcardName? = wildcardOf recognises (some n) := by
  obtain ⟨i, hd, cs⟩ := n
  have hname : wildcardOf recognises (some (.node i hd cs)) =
      if recognises hd.text then some hd.text else none := rfl
  rcases ofNode_eq_ok_iff_cases.mp h with ⟨hr, -, rfl⟩ | ⟨hr, ps, -, rfl⟩
  · rw [hname, if_pos hr, wildcardName?]
  · rw [hname, hr, wildcardName?]
    rfl

theorem fault?_ofSiblings_cons {c : Node} (hp : ofNode recognises c = .ok p) (left : Option Node) :
    fault? (ofSiblings recognises (wildcardOf recognises left) (c :: cs)) =
      (clash? recognises left c).or
        (fault? (ofSiblings recognises (wildcardOf recognises (some c)) cs)) := by
  simp only [ofSiblings, hp, clash?, wildcardName?_of_ofNode hp]
  cases wildcardOf recognises left with
  | none => cases hrest : ofSiblings recognises (wildcardOf recognises (some c)) cs <;> simp [fault?, hrest]
  | some first =>
    cases hown : wildcardOf recognises (some c) with
    | none => cases hrest : ofSiblings recognises none cs <;> simp [fault?, hrest]
    | some second => simp [fault?]

theorem fault?_ofSiblings_of_forall (left : Option Node)
    (hcs : ∀ c ∈ cs, ∀ left, (fault? (ofNode recognises c)).or (clash? recognises left c) =
      (walk left c).findSome? (offence? recognises)) :
    fault? (ofSiblings recognises (wildcardOf recognises left) cs) =
      (walkRow left cs).findSome? (offence? recognises) := by
  induction cs generalizing left with
  | nil => rfl
  | cons c cs ih =>
    obtain ⟨hc, hcs⟩ := List.forall_mem_cons.mp hcs
    rw [walkRow, List.findSome?_append, ← hc, ← ih (some c) hcs]
    cases hp : ofNode recognises c with
    | error fault =>
      rw [ofSiblings, hp]
      rfl
    | ok p => exact fault?_ofSiblings_cons hp left

/-- A node is blamed for the first offence that a walk meets. -/
theorem fault?_ofNode (recognises : String → Bool) (left : Option Node) (n : Node) :
    (fault? (ofNode recognises n)).or (clash? recognises left n) =
      (walk left n).findSome? (offence? recognises) := by
  induction n using Formula.induction generalizing left with
  | node i h cs ih =>
    have hrow : fault? (ofSiblings recognises none cs) =
        (walkRow none cs).findSome? (offence? recognises) :=
      fault?_ofSiblings_of_forall none fun c hc left => ih c hc left
    have hoffence : offence? recognises (left, .node i h cs) =
        if recognises h.text && !cs.isEmpty then some (.wildcardHasChildren h.text)
        else clash? recognises left (.node i h cs) := rfl
    rw [walk, List.findSome?_cons, hoffence]
    -- A recognised node is judged at once; one that is not has no offence of its own, only its children.
    cases hr : recognises h.text with
    | true =>
      cases cs with
      | nil =>
        simp only [ofNode, hr, fault?, walkRow, List.isEmpty_nil, if_true, Bool.not_true, Bool.and_false,
          Bool.false_eq_true, if_false, Option.none_or, List.findSome?_nil]
        cases clash? recognises left (.node i h []) <;> rfl
      | cons c cs => simp [ofNode, hr, fault?]
    | false =>
      have hclash : clash? recognises left (.node i h cs) = none := by
        have hown : wildcardOf recognises (some (.node i h cs)) = none :=
          if_neg (Bool.not_eq_true _ ▸ hr)
        simp [clash?, hown]
      rw [hclash, Option.or_none, ← hrow, ofNode, hr]
      cases ofSiblings recognises none cs <;> rfl

end Part

namespace Tree

variable {t : Tree} {recognises : String → Bool} {left : Option Node} {n : Node} {fault : Fault}

theorem mem_walk_root_iff : (left, n) ∈ walk none t.root ↔ left = none ∧ n = t.root ∨
    ∃ owner ∈ t.nodes, ∃ before after, owner.children = before ++ n :: after ∧ left = before.getLast? := by
  rw [Formula.mem_walk_iff, Prod.mk.injEq]
  rfl

theorem left_eq_of_mem_walk {left' : Option Node} (h : (left, n) ∈ walk none t.root)
    (h' : (left', n) ∈ walk none t.root) : left = left' := by
  have hnodup : ((walk none t.root).map Prod.snd).Nodup := by
    rw [Formula.map_snd_walk]
    exact .of_map Formula.label t.nodup_labels
  exact congrArg Prod.fst (List.inj_on_of_nodup_map hnodup h h' rfl)

theorem offends_iff (h : (left, n) ∈ walk none t.root) :
    t.Offends recognises n fault ↔ offence? recognises (left, n) = some fault := by
  constructor
  · rintro (⟨hr, hchildren⟩ | @⟨owner, m, before, after, hmem, hrow, hm, hr, hleaf⟩)
    · simp [offence?, Formula.isLeaf, hr, hchildren]
    · have hwalk : (some m, n) ∈ walk none t.root :=
        mem_walk_root_iff.mpr (.inr ⟨owner, hmem, before ++ [m], after, by simp [hrow], by simp⟩)
      rw [left_eq_of_mem_walk h hwalk]
      simp [offence?, clash?, wildcardOf, Formula.isLeaf, hr, hm, hleaf]
  · intro hoffence
    unfold offence? at hoffence
    split at hoffence
    · rename_i hbad
      obtain ⟨hr, hleaf⟩ := (Bool.and_eq_true _ _).mp hbad
      cases hoffence
      exact .children hr (by simpa [Formula.isLeaf] using hleaf)
    · rename_i hbad
      obtain ⟨first, hfirst, hoffence⟩ := Option.bind_eq_some_iff.mp hoffence
      obtain ⟨second, hsecond, rfl⟩ := Option.map_eq_some_iff.mp hoffence
      obtain ⟨m, rfl, hm, rfl⟩ := wildcardOf_eq_some_iff.mp hfirst
      obtain ⟨_, hself, hr, rfl⟩ := wildcardOf_eq_some_iff.mp hsecond
      cases hself
      rcases mem_walk_root_iff.mp h with ⟨hnone, -⟩ | ⟨owner, howner, before, after, hrow, hlast⟩
      · cases hnone
      · obtain ⟨before, rfl⟩ := List.getLast?_eq_some_iff.mp hlast.symm
        exact .adjacent howner (by simpa using hrow) hm hr (by simpa [Formula.isLeaf, hr] using hbad)

end Tree

namespace Pattern

variable {recognises : String → Bool} {t : Tree} {p : Pattern} {fault : Fault}

theorem fault?_ofTree (recognises : String → Bool) (t : Tree) :
    fault? (ofTree recognises t) = (walk none t.root).findSome? (offence? recognises) := by
  have hclash : clash? recognises none t.root = none := rfl
  rw [← Part.fault?_ofNode, hclash, Option.or_none, ofTree]
  cases Part.ofNode recognises t.root <;> rfl

theorem ofTree_eq_error_iff : ofTree recognises t = .error fault ↔
    ∃ before n after, t.nodes = before ++ n :: after ∧ t.Offends recognises n fault ∧
      ∀ m ∈ before, ∀ earlier, ¬ t.Offends recognises m earlier := by
  have hfault : ofTree recognises t = .error fault ↔ fault? (ofTree recognises t) = some fault := by
    cases ofTree recognises t <;> simp [fault?]
  have hnodes : (walk none t.root).map Prod.snd = t.nodes := Formula.map_snd_walk none t.root
  rw [hfault, fault?_ofTree, List.findSome?_eq_some_iff]
  constructor
  · rintro ⟨before, ⟨left, n⟩, after, hwalk, hoffence, hbefore⟩
    have hmem : ∀ entry ∈ before ++ (left, n) :: after, entry ∈ walk none t.root := fun _ he => hwalk ▸ he
    refine ⟨before.map Prod.snd, n, after.map Prod.snd, by rw [← hnodes, hwalk, List.map_append, List.map_cons],
      (Tree.offends_iff (hmem _ (by simp))).mpr hoffence, fun m hm earlier hearlier => ?_⟩
    obtain ⟨⟨left, m⟩, hentry, rfl⟩ := List.mem_map.mp hm
    have hsome := (Tree.offends_iff (hmem _ (List.mem_append_left _ hentry))).mp hearlier
    rw [hbefore _ hentry] at hsome
    cases hsome
  · rintro ⟨before, n, after, hsplit, hoffends, hbefore⟩
    rw [← hnodes] at hsplit
    obtain ⟨before, rest, hwalk, rfl, hrest⟩ := List.map_eq_append_iff.mp hsplit
    obtain ⟨⟨left, n⟩, after, rfl, rfl, rfl⟩ := List.map_eq_cons_iff.mp hrest
    have hmem : ∀ entry ∈ before ++ (left, n) :: after, entry ∈ walk none t.root := fun _ he => hwalk ▸ he
    refine ⟨before, (left, n), after, hwalk, (Tree.offends_iff (hmem _ (by simp))).mp hoffends, ?_⟩
    rintro ⟨left, m⟩ hentry
    refine Option.eq_none_iff_forall_ne_some.mpr fun earlier hearlier => ?_
    exact hbefore m (List.mem_map_of_mem hentry) earlier
      ((Tree.offends_iff (hmem _ (List.mem_append_left _ hentry))).mpr hearlier)

theorem exists_ofTree_iff : (∃ p, ofTree recognises t = .ok p) ↔
    ∀ n ∈ t.nodes, ∀ fault, ¬ t.Offends recognises n fault := by
  have hfault : (∃ p, ofTree recognises t = .ok p) ↔ fault? (ofTree recognises t) = none := by
    cases ofTree recognises t <;> simp [fault?]
  have hnodes : (walk none t.root).map Prod.snd = t.nodes := Formula.map_snd_walk none t.root
  rw [hfault, fault?_ofTree, List.findSome?_eq_none_iff, ← hnodes, List.forall_mem_map]
  refine forall₂_congr fun entry hentry => ?_
  simp only [Option.eq_none_iff_forall_ne_some, ne_eq, Tree.offends_iff hentry]

theorem exists_ofTree_iff_apart : (∃ p, ofTree recognises t = .ok p) ↔
    (∀ n ∈ t.nodes, recognises n.text = true → n.children = []) ∧
      ∀ owner ∈ t.nodes, owner.children.IsChain fun n m =>
        ¬ (recognises n.text = true ∧ recognises m.text = true) := by
  rw [exists_ofTree_iff]
  constructor
  · intro hnone
    have hleaf : ∀ n ∈ t.nodes, recognises n.text = true → n.children = [] := by
      intro n hn hr
      by_contra hchildren
      exact hnone n hn _ (.children hr hchildren)
    refine ⟨hleaf, fun owner howner => ?_⟩
    rw [List.isChain_iff_forall_rel_of_append_cons_cons]
    rintro n m before after hrow ⟨hn, hm⟩
    have hmem : m ∈ t.nodes :=
      Formula.preorder_trans howner (Formula.mem_preorder_of_child (by simp [hrow]) m.mem_preorder_self)
    exact hnone m hmem _ (.adjacent howner hrow hn hm (hleaf m hmem hm))
  · rintro ⟨hleaf, hapart⟩ n hn fault (⟨hr, hchildren⟩ | ⟨howner, hrow, hleft, hr, -⟩)
    · exact hchildren (hleaf n hn hr)
    · exact (List.isChain_iff_forall_rel_of_append_cons_cons.mp (hapart _ howner) hrow) ⟨hleft, hr⟩

end Pattern

end FormulaMatch
