import FormulaMatch.Proofs.Stepping

/-! Cutting first children off a stored pattern, or off its source before the pattern is stored. Either way
the engine finds the same, and the names of the wildcards that can be reached are the same. -/

namespace FormulaMatch

def Part.addName (names : List String) (q : Part) : List String :=
  match q.wildcardName? with
  | some name => if names.contains name then names else names ++ [name]
  | none => names

theorem eraseDups_concat (names : List String) (name : String) : (names ++ [name]).eraseDups =
    if names.eraseDups.contains name then names.eraseDups else names.eraseDups ++ [name] := by
  rw [List.eraseDups_append]
  by_cases hmem : name ∈ names <;> simp [List.removeAll, hmem, List.eraseDups_cons]

theorem foldl_addName (qs : List Part) :
    qs.foldl Part.addName [] = (qs.filterMap Part.wildcardName?).eraseDups := by
  induction qs using List.reverseRecOn with
  | nil => rfl
  | append_singleton qs q ih =>
    rw [List.foldl_concat, ih, List.filterMap_append]
    cases hname : q.wildcardName? with
    | none => simp [Part.addName, hname]
    | some name =>
      rw [List.filterMap_cons_some hname, List.filterMap_nil, eraseDups_concat, Part.addName, hname]

namespace PatternArena

variable {a : PatternArena} {p : Pattern}

theorem Stores.visit_cons (h : a.Stores p) {q : Part} (hq : q ∈ p.allParts) (fuel : Nat) (pending : List Nat)
    (names : List String) : a.visit (fuel + 1) (q.id :: pending) names =
      a.visit fuel (q.parts.map Part.id ++ pending) (Part.addName names q) := by
  obtain ⟨s, hs, -, hkind⟩ := h.slot q hq
  have hname : s.wildcardName? = q.wildcardName? := by
    rw [Slot.wildcardName?, hkind]
    cases q <;> rfl
  rw [visit, hs]
  simp only [children_of_kind hkind, hname]
  rfl

/-- Visiting a row visits the slots of all parts below it, in the order of the parts. -/
theorem Stores.visit_eq (h : a.Stores p) {ps : List Part} (hps : ∀ q ∈ Part.preorders ps, q ∈ p.allParts)
    (fuel : Nat) (pending : List Nat) (names : List String) :
    a.visit ((Part.preorders ps).length + fuel) (ps.map Part.id ++ pending) names =
      a.visit fuel pending ((Part.preorders ps).foldl Part.addName names) := by
  induction ps using Part.row_induction generalizing fuel pending names with
  | nil => simp [Part.preorders]
  | literal i hd ps rest ihps ihrest =>
    simp only [Part.preorders, Part.preorder, List.cons_append, List.forall_mem_cons,
      List.forall_mem_append] at hps
    obtain ⟨hself, hps, hrest⟩ := hps
    have hlength : (Part.preorders (.literal i hd ps :: rest)).length + fuel =
        (Part.preorders ps).length + ((Part.preorders rest).length + fuel) + 1 := by
      simp only [Part.preorders, Part.preorder, List.length_append, List.length_cons]
      omega
    rw [hlength, List.map_cons, List.cons_append, h.visit_cons hself, Part.parts, ihps hps, ihrest hrest]
    simp only [Part.preorders, Part.preorder, List.cons_append, List.foldl_cons, List.foldl_append]
  | wildcard i hd rest ihrest _ =>
    simp only [Part.preorders, Part.preorder, List.cons_append, List.nil_append, List.forall_mem_cons] at hps
    obtain ⟨hself, hrest⟩ := hps
    have hlength : (Part.preorders (.wildcard i hd :: rest)).length + fuel =
        (Part.preorders rest).length + fuel + 1 := by
      simp only [Part.preorders, Part.preorder, List.length_append, List.length_singleton]
      omega
    rw [hlength, List.map_cons, List.cons_append, h.visit_cons hself, Part.parts, List.map_nil,
      List.nil_append, ihrest hrest]
    simp only [Part.preorders, Part.preorder, List.singleton_append, List.foldl_cons]

theorem visit_nil (a : PatternArena) (fuel : Nat) (names : List String) : a.visit fuel [] names = names := by
  cases fuel <;> rfl

theorem Stores.wildcardNames_eq (h : a.Stores p) : a.wildcardNames = p.wildcardNames := by
  have hrow : Part.preorders [p.root] = p.root.preorder := by
    rw [Part.preorders, Part.preorders, List.append_nil]
  have hmem : ∀ q ∈ Part.preorders [p.root], q ∈ p.allParts := by
    rw [hrow, Pattern.allParts, Part.preorders]
    exact fun q => List.mem_append_left _
  have hsize : a.size = (Part.preorders [p.root]).length + (Part.preorders p.detached).length := by
    rw [h.size, Pattern.size, Pattern.allParts, Part.preorders, List.length_append, hrow]
  have hvisit := h.visit_eq hmem (Part.preorders p.detached).length [] []
  rw [visit_nil, ← hsize, foldl_addName, hrow] at hvisit
  rw [wildcardNames, h.root, Pattern.wildcardNames, ← hvisit]
  rfl

/-- The slots that can be reached from the root. -/
inductive Reaches (a : PatternArena) : Nat → Prop
  | root : Reaches a a.root
  | child {i c : Nat} (owner : Reaches a i) (mem : c ∈ a.children i) : Reaches a c

theorem Stores.reaches (h : a.Stores p) {r q : Part} (hr : r ∈ p.allParts) (hreach : a.Reaches r.id)
    (hq : q ∈ r.preorder) : a.Reaches q.id := by
  induction r using Part.induction with
  | wildcard i hd =>
    obtain rfl := List.mem_singleton.mp hq
    exact hreach
  | literal i hd ps ih =>
    rw [Part.preorder, Part.preorders_eq_flatMap] at hq
    rcases List.mem_cons.mp hq with rfl | hq
    · exact hreach
    · obtain ⟨c, hc, hq⟩ := List.mem_flatMap.mp hq
      have hmem : c.id ∈ a.children i := by
        have hchildren : a.children i = ps.map Part.id := h.children hr
        exact hchildren ▸ List.mem_map_of_mem hc
      exact ih c hc (Pattern.mem_allParts_of_child hr hc) (.child hreach hmem) hq

/-- The children of a slot that cannot be reached cannot be reached either. -/
theorem Linked.reaches_owner (h : a.Linked) {i c : Nat} (hc : c ∈ a.children i) (hreach : a.Reaches c) :
    a.Reaches i := by
  obtain ⟨k, hk⟩ := List.mem_iff_getElem?.mp hc
  obtain ⟨-, d, -, -, hd, hparent, -⟩ := h.exists_of_getElem? hk
  cases hreach with
  | root =>
    obtain ⟨hzero, s, hs, hnone⟩ := h.root
    rw [hzero, hs, Option.some.injEq] at hd
    rw [← hd, hnone] at hparent
    cases hparent
  | child howner hmem =>
    obtain ⟨k, hk⟩ := List.mem_iff_getElem?.mp hmem
    obtain ⟨-, d', -, -, hd', hparent', -⟩ := h.exists_of_getElem? hk
    rw [hd, Option.some.injEq] at hd'
    rw [← hd', hparent, Option.some.injEq] at hparent'
    exact hparent' ▸ howner

/-- A cut at a slot that has no children or cannot be reached changes no slot that can be reached. -/
theorem Linked.slot?_removeFirst (h : a.Linked) {id : Nat} (hidle : a.children id = [] ∨ ¬ a.Reaches id)
    {i : Nat} (hreach : a.Reaches i) : (a.removeFirst id).2.slot? i = a.slot? i := by
  rcases h.removeFirst_cases id with ⟨-, hnone⟩ | ⟨s, removed, remaining, b, hs, hc, hcut, -, -, hb⟩
  · rw [hnone]
  · have hchildren : a.children id = removed :: remaining := (children_of_slot hs).trans hc
    have hout : ¬ a.Reaches id := hidle.resolve_left (by simp [hchildren])
    have hne : i ≠ id := fun he => hout (he ▸ hreach)
    have hkid : i ∉ removed :: remaining := fun hmem => hout (h.reaches_owner (hchildren ▸ hmem) hreach)
    obtain ⟨hremoved, hremaining⟩ := not_or.mp (List.mem_cons.not.mp hkid)
    rw [hcut, hb]
    cases a.slot? i with
    | none => rfl
    | some t => simp [Slot.cut, hne, hremoved, hremaining]

theorem root_removeFirst (a : PatternArena) (id : Nat) : (a.removeFirst id).2.root = a.root := by
  fun_cases removeFirst a id <;> rfl

theorem Linked.reaches_removeFirst_iff (h : a.Linked) {id : Nat}
    (hidle : a.children id = [] ∨ ¬ a.Reaches id) (i : Nat) :
    (a.removeFirst id).2.Reaches i ↔ a.Reaches i := by
  have hchildren : ∀ {i}, a.Reaches i → (a.removeFirst id).2.children i = a.children i := by
    intro i hreach
    rw [children, children, h.slot?_removeFirst hidle hreach]
  constructor
  · intro hreach
    induction hreach with
    | root => exact root_removeFirst a id ▸ .root
    | child _ hmem ih => exact .child ih (hchildren ih ▸ hmem)
  · intro hreach
    induction hreach with
    | root => exact root_removeFirst a id ▸ .root
    | child hreach hmem ih => exact .child ih ((hchildren hreach).symm ▸ hmem)

variable {recognises : String → Bool} {source : Tree} {b : PatternArena} {q : Pattern}

/-- An arena and the pattern it stores, with what the engine relies on. -/
structure Runs (a : PatternArena) (p : Pattern) : Prop where
  stores : a.Stores p
  linked : a.Linked
  inOrder : ∀ q ∈ p.allParts, q.InOrder

theorem runs_of_ofTree (ha : ofTree recognises source = .ok a) (hp : Pattern.ofTree recognises source = .ok p)
    (ids : List Nat) : (a.removes ids).Runs (p.trims ids) := by
  obtain ⟨hids, hkeeps⟩ := Pattern.keeps_of_ofTree hp
  obtain ⟨hstores, hlinked, hkeeps⟩ :=
    removes_in_step (stores_of_ofTree ha hp) (linked_of_ofTree ha) hkeeps hids ids
  exact ⟨hstores, hlinked, hkeeps.inOrder⟩

theorem Runs.search_agrees (h : a.Runs p) (h' : b.Runs q) (hsame : p.SameWording q) (t : Tree)
    (options : Options) (moves : List Move) :
    ((ArenaSearch.new a t options).run moves).Agrees ((ArenaSearch.new b t options).run moves) := by
  have hrun : ((ArenaSearch.new a t options).run moves).withPattern p = (Search.new p t options).run moves :=
    ArenaSearch.withPattern_run h.stores h.linked h.inOrder moves
  have hrun' : ((ArenaSearch.new b t options).run moves).withPattern q = (Search.new q t options).run moves :=
    ArenaSearch.withPattern_run h'.stores h'.linked h'.inOrder moves
  have hagrees : ((Search.new p t options).run moves).Agrees ((Search.new q t options).run moves) :=
    hsame.run moves
  rw [← hrun, ← hrun'] at hagrees
  exact ⟨hagrees.place, hagrees.hit, hagrees.fault⟩

/-- It makes no difference whether first children are cut off a stored pattern or off its source. The arena
goes on to represent the pattern that is cut in the same way; what is left of the source is stored too,
with the wildcards, the outcomes and the runs found of the cut arena; and a cut at a wildcard, at a slot
without children or at one that cannot be reached changes neither the slots that can be reached nor the
source. -/
theorem removals_commute_with_ofTree (ha : ofTree recognises source = .ok a) (ids : List Nat) :
    (∃ p, Pattern.ofTree recognises source = .ok p ∧ (a.removes ids).Represents (p.trims ids)) ∧
    (∃ b, ofTree recognises (source.trims ids) = .ok b ∧
      (a.removes ids).wildcardNames = b.wildcardNames ∧
      ∀ options : Options,
        (∀ t, (a.removes ids).matchWhole t options = b.matchWhole t options ∧
          ∀ moves, ((ArenaSearch.new (a.removes ids) t options).run moves).Agrees
            ((ArenaSearch.new b t options).run moves)) ∧
        ∀ n queue, (a.removes ids).matchRoot options n queue = b.matchRoot options n queue) ∧
    ∀ id, (a.removes ids).children id = [] ∨ ¬ (a.removes ids).Reaches id →
      (∀ i, ((a.removes (ids ++ [id])).Reaches i ↔ (a.removes ids).Reaches i) ∧
        ((a.removes ids).Reaches i → (a.removes (ids ++ [id])).slot? i = (a.removes ids).slot? i)) ∧
      source.trims (ids ++ [id]) = source.trims ids := by
  obtain ⟨p, hp⟩ := exists_ofTree_iff_pattern.mp ⟨a, ha⟩
  have hruns := runs_of_ofTree ha hp ids
  have hfollows := (Pattern.Follows.of_ofTree hp).trims ids
  refine ⟨⟨p, hp, removes_represent_trims ha hp ids⟩, ?_, ?_⟩
  · obtain ⟨q, hq, hsame⟩ := hfollows.exists_ofTree
    obtain ⟨b, hb⟩ := exists_ofTree_iff_pattern.mpr ⟨q, hq⟩
    have hruns' : b.Runs q := runs_of_ofTree hb hq []
    refine ⟨b, hb, ?_, fun options =>
      ⟨fun t => ⟨?_, hruns.search_agrees hruns' hsame t options⟩, fun n queue => ?_⟩⟩
    · rw [hruns.stores.wildcardNames_eq, hruns'.stores.wildcardNames_eq, hsame.wildcardNames]
    · rw [matchWhole_eq hruns.stores hruns.linked hruns.inOrder,
        matchWhole_eq hruns'.stores hruns'.linked hruns'.inOrder, hsame.matchWhole]
    · rw [matchRoot_eq hruns.stores hruns.linked hruns.inOrder,
        matchRoot_eq hruns'.stores hruns'.linked hruns'.inOrder, hsame.matchRoot]
  · intro id hidle
    have hcut : a.removes (ids ++ [id]) = ((a.removes ids).removeFirst id).2 := by
      rw [removes, List.foldl_concat, removes]
    refine ⟨fun i => ?_, (hfollows.trims_concat_of_childless fun q hq hid => ?_).2⟩
    · rw [hcut]
      exact ⟨hruns.linked.reaches_removeFirst_iff hidle i, hruns.linked.slot?_removeFirst hidle⟩
    · have hroot := Pattern.root_mem (p.trims ids)
      have hreach : (a.removes ids).Reaches q.id := by
        refine hruns.stores.reaches hroot ?_ hq
        exact hruns.stores.root ▸ .root
      have hmem : q ∈ (p.trims ids).allParts := (Part.preorder_sublist hroot).subset hq
      have hout : ¬ ¬ (a.removes ids).Reaches id := not_not_intro (hid ▸ hreach)
      have hnone : (a.removes ids).children q.id = [] := hid ▸ hidle.resolve_right hout
      rw [hruns.stores.children hmem] at hnone
      exact List.map_eq_nil_iff.mp hnone

/-- From `f(w x) g(y v)` the children of `f` are cut off and the first one of `g`; there is none at the
wildcard `w`, which is cut off then, nor at a number that no slot has. What is left is `f g(v)`. -/
theorem removals_commute_with_ofTree_repeated :
    let source : Tree := .ofExpr (.sequence
      [.application "f" [.leaf "w", .leaf "x"], .application "g" [.leaf "y", .leaf "v"]])
    let ids := [1, 2, 4, 9, 1, 1]
    let t : Tree := .ofExpr (.sequence [.leaf "f", .application "g" [.leaf "a", .leaf "b"]])
    ∃ a b p C, ofTree (["v", "w"].contains ·) source = .ok a ∧
      Pattern.ofTree (["v", "w"].contains ·) source = .ok p ∧ (a.removes ids).Represents (p.trims ids) ∧
      ofTree (["v", "w"].contains ·) (source.trims ids) = .ok b ∧
      (source.trims ids).expr = .sequence [.application "f" [], .application "g" [.leaf "v"]] ∧
      (a.removes ids).wildcardNames = ["v"] ∧ b.wildcardNames = ["v"] ∧
      (a.removes ids).matchWhole t .exact = .matched C ∧ b.matchWhole t .exact = .matched C ∧
      (C.get? "v").map (List.map Formula.label) = some [3, 4] ∧
      ((ArenaSearch.new (a.removes ids) t .exact).run [.next]).Agrees
        ((ArenaSearch.new b t .exact).run [.next]) ∧
      (a.removes (ids ++ [6])).slot? 4 = (a.removes ids).slot? 4 := by
  intro source ids t
  obtain ⟨a, ha⟩ : ∃ a, ofTree (["v", "w"].contains ·) source = .ok a := ⟨_, rfl⟩
  obtain ⟨⟨p, hp, hrepresents⟩, ⟨b, hb, hnames, hsame⟩, hidle⟩ := removals_commute_with_ofTree ha ids
  obtain ⟨hwhole, hrun⟩ := (hsame .exact).1 t
  cases ha
  refine ⟨_, b, p, _, rfl, hp, hrepresents, hb, rfl, rfl, hnames.symm, rfl, hwhole.symm, rfl, hrun _,
    ((hidle 6 ?_).1 4).2 ?_⟩
  · exact .inl rfl
  · exact .child .root (by decide)

end PatternArena

end FormulaMatch
