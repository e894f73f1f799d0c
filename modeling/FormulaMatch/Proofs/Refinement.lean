import FormulaMatch.Proofs.Arrangement
import FormulaMatch.Proofs.Places

/-! Stored patterns and patterns. Whatever first children are cut off, the slots of an arena are the parts of
the pattern that was made from the same tree and cut in the same way, and what a slot keeps of its parent
and its place is what the pattern finds by searching. -/

namespace FormulaMatch

namespace Part

variable {id : Nat} {p q : Part}

def kind : Part → SlotKind
  | literal _ _ ps => .literal (ps.map Part.id)
  | wildcard _ h => .wildcard h.text

theorem kind_trim_of_ne (h : p.id ≠ id) : (p.trim id).kind = p.kind := by
  cases p with
  | wildcard i hd => rfl
  | literal i hd ps =>
    have hids : (ps.map (trim id)).map Part.id = ps.map Part.id := by
      rw [List.map_map]
      exact List.map_congr_left fun p _ => id_trim id p
    have hi : i ≠ id := h
    rw [trim_literal, if_neg hi, kind, kind, hids]

theorem not_mem_ids_of_child (hnodup : (p.preorder.map Part.id).Nodup) (hq : q ∈ preorders p.parts) :
    p.id ∉ q.preorder.map Part.id := by
  rw [preorder_eq, List.map_cons, List.nodup_cons] at hnodup
  exact fun hmem => hnodup.1 (((preorder_sublist hq).map Part.id).subset hmem)

/-- The parts of a part that was cut are cut parts of it. -/
theorem exists_of_mem_preorder_trim (hnodup : (p.preorder.map Part.id).Nodup)
    (hq : q ∈ (p.trim id).preorder) : ∃ r ∈ p.preorder, q = r.trim id := by
  induction p using induction generalizing q with
  | wildcard i h =>
    obtain rfl := List.mem_singleton.mp hq
    exact ⟨_, List.mem_cons_self, rfl⟩
  | literal i h ps ih =>
    rw [preorder_eq] at hq
    rcases List.mem_cons.mp hq with rfl | hq
    · exact ⟨_, preorder_eq (literal i h ps) ▸ List.mem_cons_self, rfl⟩
    rw [trim_literal, parts] at hq
    by_cases hi : i = id
    · rw [if_pos hi] at hq
      have hmem : q ∈ preorders ps := by
        rw [preorders_eq_flatMap] at hq ⊢
        obtain ⟨p, hp, hq⟩ := List.mem_flatMap.mp hq
        exact List.mem_flatMap.mpr ⟨p, List.mem_of_mem_drop hp, hq⟩
      have hkeep : q.trim id = q := trim_of_not_mem (hi ▸ not_mem_ids_of_child hnodup hmem)
      exact ⟨q, List.mem_cons_of_mem _ hmem, hkeep.symm⟩
    · rw [if_neg hi, preorders_eq_flatMap, List.flatMap_map] at hq
      obtain ⟨p, hp, hq⟩ := List.mem_flatMap.mp hq
      have hin : p ∈ preorders ps := (sublist_preorders ps).subset hp
      obtain ⟨r, hr, rfl⟩ := ih p hp (hnodup.sublist (((preorder_sublist hin).trans
        (List.sublist_cons_self _ _)).map Part.id)) hq
      exact ⟨r, List.mem_cons_of_mem _ ((preorder_sublist hin).subset hr), rfl⟩

end Part

namespace Pattern

variable {p : Pattern} {id : Nat} {q first : Part} {tail : List Part}

theorem exists_of_mem_allParts_trim (hnodup : (p.allParts.map Part.id).Nodup) (hq : p.part? id = some q)
    (hparts : q.parts = first :: tail) {r : Part} (hr : r ∈ (p.trim id).2.allParts) :
    ∃ r₀ ∈ p.allParts, r = r₀.trim id := by
  obtain ⟨hmem, rfl⟩ := mem_allParts_of_part? hq
  have hsub : ∀ r ∈ p.allParts, (r.preorder.map Part.id).Nodup := fun r hr =>
    hnodup.sublist ((Part.preorder_sublist hr).map Part.id)
  have hroots : ∀ r ∈ p.root :: p.detached, r ∈ p.allParts := (Part.sublist_preorders _).subset
  have hcut : ∀ r ∈ p.root :: p.detached, ∀ r' ∈ (r.trim q.id).preorder,
      ∃ r₀ ∈ p.allParts, r' = r₀.trim q.id := by
    intro r hr r' hr'
    obtain ⟨r₀, hr₀, heq⟩ := Part.exists_of_mem_preorder_trim (hsub r (hroots r hr)) hr'
    exact ⟨r₀, (Part.preorder_sublist (hroots r hr)).subset hr₀, heq⟩
  rw [trim, hq, Option.bind_some, hparts, List.head?_cons] at hr
  simp only [allParts, Part.preorders, List.mem_append] at hr
  rcases hr with hr | hr | hr
  · exact hcut _ List.mem_cons_self _ hr
  · have hchild : r ∈ Part.preorders q.parts := by
      rw [hparts, Part.preorders]
      exact List.mem_append_left _ hr
    refine ⟨r, Part.mem_preorders_of_parts hmem hchild, ?_⟩
    exact (Part.trim_of_not_mem (Part.not_mem_ids_of_child (hsub q hmem) hchild)).symm
  · rw [Part.preorders_eq_flatMap, List.flatMap_map] at hr
    obtain ⟨r₀, hr₀, hr⟩ := List.mem_flatMap.mp hr
    exact hcut r₀ (List.mem_cons_of_mem _ hr₀) _ hr

end Pattern

namespace PatternArena

variable {recognises : String → Bool} {source : Tree} {a : PatternArena} {p₀ p : Pattern} {id : Nat}
  {q : Part}

/-- Every part has its slot, with its head, its kind and the numbers of its children. -/
structure Stores (a : PatternArena) (p : Pattern) : Prop where
  size : a.size = p.size
  root : a.root = p.root.id
  slot : ∀ q ∈ p.allParts, ∃ s, a.slot? q.id = some s ∧ s.head = q.head ∧ s.kind = q.kind

theorem stores_of_ofTree (ha : ofTree recognises source = .ok a)
    (hp : Pattern.ofTree recognises source = .ok p) :
    a.Stores p where
  size := by
    rw [size, (slots_of_ofTree ha).2, List.length_map, ← Pattern.map_source_allParts hp, List.length_map]
    rfl
  root := by
    rw [(slots_of_ofTree ha).1, ← Part.label_source, (Pattern.ofTree_eq_ok_iff.mp hp).1, Tree.label_root]
  slot q hq := by
    have hmem : q.source ∈ source.nodes := Pattern.map_source_allParts hp ▸ List.mem_map_of_mem hq
    have hwildcard : recognises q.text = q.isWildcard :=
      ((Pattern.ofTree_eq_ok_iff.mp hp).2.1 q (Pattern.allParts_of_ofTree hp ▸ hq)).1
    refine ⟨_, Part.label_source q ▸ slot?_label ha hmem, Part.head_source q, ?_⟩
    have hhead : (source.cell q.source).head.text = q.text := congrArg Head.text (Part.head_source q)
    rw [Slot.ofCell, hhead, hwildcard]
    cases q with
    | wildcard i h => rfl
    | literal i h ps =>
      simp only [Tree.cell, Part.children_source, List.map_map, Part.isWildcard, Bool.false_eq_true, if_false,
        Part.kind, Part.parts]
      exact congrArg SlotKind.literal (List.map_congr_left fun c _ => c.label_source)

theorem children_of_kind {s : Slot} (h : s.kind = q.kind) : s.children = q.parts.map Part.id := by
  unfold Slot.children
  rw [h]
  cases q <;> rfl

theorem Stores.children (h : a.Stores p) (hq : q ∈ p.allParts) : a.children q.id = q.parts.map Part.id := by
  obtain ⟨s, hs, -, hkind⟩ := h.slot q hq
  rw [children_of_slot hs, children_of_kind hkind]

section Cut

variable (h : a.Stores p) (hkeeps : p₀.Keeps p) (hids : p₀.allParts.map Part.id = List.range p₀.size)

include h hkeeps hids

theorem Stores.slot?_eq_none {id : Nat} (hq : p.part? id = none) : a.slot? id = none := by
  have hout : ¬ id < a.size := by
    rw [h.size, ← hkeeps.exists_part?_iff hids]
    simp [hq]
  exact List.getElem?_eq_none (Nat.le_of_not_lt hout)

theorem Stores.children_of_part? (id : Nat) :
    a.children id = ((p.part? id).map fun q => q.parts.map Part.id).getD [] := by
  cases hq : p.part? id with
  | some q =>
    obtain ⟨hmem, rfl⟩ := Pattern.mem_allParts_of_part? hq
    exact h.children hmem
  | none => simp [PatternArena.children, h.slot?_eq_none hkeeps hids hq]

/-- A cut takes the same child off the arena and off the pattern. -/
theorem Stores.removeFirst (hlinked : a.Linked) (id : Nat) :
    (a.removeFirst id).1 = (p.trim id).1 ∧ (a.removeFirst id).2.Stores (p.trim id).2 := by
  have hnodup := hkeeps.nodup hids
  have hsize : (p.trim id).2.size = p.size :=
    (hkeeps.trim (hids ▸ List.nodup_range) id).size_eq.trans hkeeps.size_eq.symm
  have hchildren := h.children_of_part? hkeeps hids id
  rcases hlinked.removeFirst_cases id with
    ⟨hnone, hcut⟩ | ⟨s, removed, remaining, b, hs, hc, hcut, hroot, hbsize, hb⟩
  · have htrim : p.trim id = (none, p) := by
      rw [hnone] at hchildren
      cases hq : p.part? id with
      | none => simp [Pattern.trim, hq]
      | some q =>
        have hparts : q.parts = [] := by simpa [hq] using hchildren.symm
        simp [Pattern.trim, hq, hparts]
    rw [hcut, htrim]
    exact ⟨rfl, h⟩
  · rw [children_of_slot hs, hc] at hchildren
    cases hq : p.part? id with
    | none => simp [hq] at hchildren
    | some q =>
      obtain ⟨hmem, rfl⟩ := Pattern.mem_allParts_of_part? hq
      cases hparts : q.parts with
      | nil => simp [hq, hparts] at hchildren
      | cons first tail =>
        simp only [hq, hparts, Option.map_some, Option.getD_some, List.map_cons, List.cons.injEq] at hchildren
        obtain ⟨rfl, rfl⟩ := hchildren
        have hfirst : q.parts.head? = some first := by
          rw [hparts]
          rfl
        rw [hcut]
        refine ⟨by simp [Pattern.trim, hq, hfirst], by rw [hbsize, h.size, hsize], ?_, fun r hr => ?_⟩
        · simp [Pattern.trim, hq, hfirst, hroot, h.root, Part.id_trim]
        · obtain ⟨r, hin, rfl⟩ := Pattern.exists_of_mem_allParts_trim hnodup hq hparts hr
          obtain ⟨u, hu, hhead, hkind⟩ := h.slot r hin
          have hface := Part.face_trim q.id r
          rw [Part.id_trim, hb, hu, Option.map_some]
          refine ⟨_, rfl, hhead.trans (congrArg (fun face => face.2.1) hface).symm, ?_⟩
          by_cases hid : r.id = q.id
          · obtain rfl : r = q := List.inj_on_of_nodup_map hnodup hin hmem hid
            cases r with
            | wildcard i hd => cases hparts
            | literal i hd ps =>
              have hps : ps = first :: tail := hparts
              simp [Slot.cut, Part.id, Part.trim_literal, Part.kind, hps]
          · rw [Part.kind_trim_of_ne hid, ← hkind]
            exact if_neg hid

end Cut

/-- An arena represents a pattern if its slots are the parts, each with the parent and the place that are
found by searching, and if both give the same next siblings. -/
structure Represents (a : PatternArena) (p : Pattern) : Prop where
  size : a.size = p.size
  root : a.root = p.root.id
  slot : ∀ id, a.slot? id = (p.part? id).map fun q =>
    { head := q.head, kind := q.kind, parent := (p.parent? id).map Part.id, position := p.position id }
  next : ∀ id, a.nextSibling? id = (p.nextSibling? id).map Part.id

section Links

variable (h : a.Stores p) (hkeeps : p₀.Keeps p) (hids : p₀.allParts.map Part.id = List.range p₀.size)
  (hlinked : a.Linked)

include h hkeeps hids hlinked

/-- What a slot keeps of its parent and its place is what the pattern finds. -/
theorem Stores.parent_position {s : Slot} (hs : a.slot? id = some s) :
    s.parent = (p.parent? id).map Part.id ∧ s.position = p.position id := by
  have hnodup := hkeeps.nodup hids
  cases hparent : p.parent? id with
  | some o =>
    obtain ⟨ho, before, c, after, hsplit, rfl⟩ := Pattern.exists_child_of_parent? hparent
    have hentry : (a.children o.id)[before.length]? = some c.id := by
      rw [h.children ho, hsplit]
      simp
    obtain ⟨-, d, -, -, hd, hdparent, hdposition⟩ := hlinked.exists_of_getElem? hentry
    rw [hs, Option.some.injEq] at hd
    rw [hd, hdparent, hdposition, Pattern.position_of_child hnodup ho hsplit]
    exact ⟨rfl, rfl⟩
  | none =>
    rw [Pattern.position, hparent]
    rcases hlinked.owned id s hs with ⟨o, u, -, hu, hentry⟩ | hdetached
    · have hmem : id ∈ a.children o := children_of_slot hu ▸ List.mem_of_getElem? hentry
      rw [h.children_of_part? hkeeps hids] at hmem
      cases hq : p.part? o with
      | none => simp [hq] at hmem
      | some q =>
        rw [hq] at hmem
        obtain ⟨c, hc, rfl⟩ := List.mem_map.mp hmem
        rw [Pattern.parent?_of_child hnodup (Pattern.mem_allParts_of_part? hq).1 hc] at hparent
        cases hparent
    · exact hdetached

theorem Stores.represents : a.Represents p := by
  have hnodup := hkeeps.nodup hids
  have hslot : ∀ id, a.slot? id = (p.part? id).map fun q =>
      { head := q.head, kind := q.kind, parent := (p.parent? id).map Part.id, position := p.position id } := by
    intro id
    cases hq : p.part? id with
    | none => exact h.slot?_eq_none hkeeps hids hq
    | some q =>
      obtain ⟨hmem, rfl⟩ := Pattern.mem_allParts_of_part? hq
      obtain ⟨⟨head, kind, parent, position⟩, hs, rfl, rfl⟩ := h.slot q hmem
      obtain ⟨rfl, rfl⟩ := h.parent_position hkeeps hids hlinked hs
      exact hs
  refine ⟨h.size, h.root, hslot, fun id => ?_⟩
  cases hparent : p.parent? id with
  | some o =>
    obtain ⟨ho, before, c, after, hsplit, rfl⟩ := Pattern.exists_child_of_parent? hparent
    have hentry : (a.children o.id)[before.length]? = some c.id := by
      rw [h.children ho, hsplit]
      simp
    rw [hlinked.nextSibling?_eq hentry, h.children ho, Pattern.nextSibling?_of_child hnodup ho hsplit,
      List.getElem?_map, hsplit, getElem?_behind]
  | none =>
    rw [nextSibling?, hslot, Pattern.nextSibling?, hparent]
    cases p.part? id <;> rfl

end Links

/-- Cutting the same first children off the arena and off the pattern of a tree keeps them in step. -/
theorem removes_in_step (hstores : a.Stores p) (hlinked : a.Linked) (hkeeps : p₀.Keeps p)
    (hids : p₀.allParts.map Part.id = List.range p₀.size) (ids : List Nat) :
    (a.removes ids).Stores (p.trims ids) ∧ (a.removes ids).Linked ∧ p₀.Keeps (p.trims ids) := by
  induction ids generalizing a p with
  | nil => exact ⟨hstores, hlinked, hkeeps⟩
  | cons id ids ih =>
    exact ih (hstores.removeFirst hkeeps hids hlinked id).2 (hlinked.removes [id]).linked
      (hkeeps.trim (hids ▸ List.nodup_range) id)

/-- Whatever first children are cut off both, the arena of a tree represents the pattern of it. -/
theorem removes_represent_trims (ha : ofTree recognises source = .ok a)
    (hp : Pattern.ofTree recognises source = .ok p) (ids : List Nat) :
    (a.removes ids).Represents (p.trims ids) := by
  obtain ⟨hids, hkeeps⟩ := Pattern.keeps_of_ofTree hp
  obtain ⟨hstores, hlinked, hkeeps⟩ :=
    removes_in_step (stores_of_ofTree ha hp) (linked_of_ofTree ha) hkeeps hids ids
  exact hstores.represents hkeeps hids hlinked

end PatternArena

end FormulaMatch
