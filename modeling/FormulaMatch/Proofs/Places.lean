import FormulaMatch.Proofs.Numbering

/-! Places of parts. A part is found by its number whatever was cut off, each entry of a list of children
has the owner of the list as its parent, and the sibling after it is the entry behind it. -/

namespace FormulaMatch.Pattern

/-- The place of a part among its parent's children; a part without a parent is at place 0. -/
def position (p : Pattern) (id : Nat) : Nat :=
  match p.parent? id with
  | some parent => parent.parts.findIdx fun child => child.id == id
  | none => 0

variable {recognises : String → Bool} {source : Tree} {p₀ p : Pattern}

section Lookup

variable {q c : Part} {id : Nat}

theorem ids_perm (p : Pattern) : ((p.root :: p.detached).map Part.id ++
    p.allParts.flatMap fun q => q.parts.map Part.id).Perm (p.allParts.map Part.id) := by
  have hperm := (Part.flatMap_parts_perm (p.root :: p.detached)).map Part.id
  rwa [List.map_append, List.map_flatMap] at hperm

theorem part?_eq_some_iff (hnodup : (p.allParts.map Part.id).Nodup) :
    p.part? id = some q ↔ q ∈ p.allParts ∧ q.id = id := by
  refine ⟨mem_allParts_of_part?, ?_⟩
  rintro ⟨hq, rfl⟩
  have hsome : (p.part? q.id).isSome = true :=
    List.find?_isSome.mpr ⟨q, hq, beq_self_eq_true q.id⟩
  obtain ⟨r, hr⟩ := Option.isSome_iff_exists.mp hsome
  obtain ⟨hmem, hid⟩ := mem_allParts_of_part? hr
  rw [hr, List.inj_on_of_nodup_map hnodup hmem hq hid]

theorem exists_child_of_parent? (h : p.parent? id = some q) :
    q ∈ p.allParts ∧ ∃ before c after, q.parts = before ++ c :: after ∧ c.id = id := by
  refine ⟨List.mem_of_find?_eq_some h, ?_⟩
  have hany := List.find?_some h
  rw [List.any_eq_true] at hany
  obtain ⟨c, hc, hid⟩ := hany
  obtain ⟨before, after, hsplit⟩ := List.append_of_mem hc
  exact ⟨before, c, after, hsplit, by simpa using hid⟩

theorem parent?_of_child (hnodup : (p.allParts.map Part.id).Nodup) (hq : q ∈ p.allParts)
    (hc : c ∈ q.parts) : p.parent? c.id = some q :=
  find?_owner ((List.nodup_append'.mp (p.ids_perm.nodup_iff.mpr hnodup)).2.1) hq hc

theorem nodup_ids_parts (hnodup : (p.allParts.map Part.id).Nodup) (hq : q ∈ p.allParts) :
    (q.parts.map Part.id).Nodup :=
  (List.nodup_flatMap.mp (List.nodup_append'.mp (p.ids_perm.nodup_iff.mpr hnodup)).2.1).1 q hq

theorem parent?_eq_none_of_root (hnodup : (p.allParts.map Part.id).Nodup)
    (hq : q ∈ p.root :: p.detached) : p.parent? q.id = none := by
  have hdisjoint := (List.nodup_append'.mp (p.ids_perm.nodup_iff.mpr hnodup)).2.2
  refine Option.eq_none_iff_forall_ne_some.mpr fun owner howner => ?_
  obtain ⟨hmem, before, c, after, hsplit, hid⟩ := exists_child_of_parent? howner
  refine hdisjoint (List.mem_map_of_mem hq) (List.mem_flatMap.mpr ⟨owner, hmem, ?_⟩)
  simp [hsplit, hid]

theorem position_of_child (hnodup : (p.allParts.map Part.id).Nodup) (hq : q ∈ p.allParts)
    {before after : List Part} (h : q.parts = before ++ c :: after) :
    p.position c.id = before.length := by
  have hids := nodup_ids_parts hnodup hq
  rw [h] at hids
  rw [position, parent?_of_child hnodup hq (h ▸ List.mem_append_right _ List.mem_cons_self)]
  simp only [h, findIdx_key hids]

theorem nextSibling?_of_child (hnodup : (p.allParts.map Part.id).Nodup) (hq : q ∈ p.allParts)
    {before after : List Part} (h : q.parts = before ++ c :: after) :
    p.nextSibling? c.id = after.head? := by
  have hids := nodup_ids_parts hnodup hq
  rw [h] at hids
  rw [nextSibling?, parent?_of_child hnodup hq (h ▸ List.mem_append_right _ List.mem_cons_self)]
  simp only [h, dropWhile_key hids, List.drop_one, List.tail_cons]

theorem mem_allParts_of_child (hq : q ∈ p.allParts) (hc : c ∈ q.parts) : c ∈ p.allParts :=
  Part.mem_preorders_of_parts hq ((Part.sublist_preorders q.parts).subset hc)

theorem nextSibling?_eq (hnodup : (p.allParts.map Part.id).Nodup) (id : Nat) :
    p.nextSibling? id = (p.parent? id).bind fun q => q.parts[p.position id + 1]? := by
  cases h : p.parent? id with
  | none =>
    rw [nextSibling?, h]
    rfl
  | some q =>
    obtain ⟨hq, before, c, after, hsplit, rfl⟩ := exists_child_of_parent? h
    rw [nextSibling?_of_child hnodup hq hsplit, position_of_child hnodup hq hsplit, Option.bind_some,
      hsplit, getElem?_behind]

theorem exists_adjacent_of_nextSibling? (hnodup : (p.allParts.map Part.id).Nodup) {next : Part}
    (h : p.nextSibling? id = some next) : ∃ owner ∈ p.allParts, ∃ before c after,
      owner.parts = before ++ c :: next :: after ∧ c.id = id := by
  cases hparent : p.parent? id with
  | none =>
    rw [nextSibling?, hparent] at h
    cases h
  | some owner =>
    obtain ⟨howner, before, c, after, hsplit, rfl⟩ := exists_child_of_parent? hparent
    rw [nextSibling?_of_child hnodup howner hsplit] at h
    obtain ⟨after, rfl⟩ := List.head?_eq_some_iff.mp h
    exact ⟨owner, howner, before, c, after, hsplit, rfl⟩

theorem owned_or_detached (hnodup : (p.allParts.map Part.id).Nodup) (hq : q ∈ p.allParts)
    (hne : q.id ≠ p.root.id) :
    (∃! owner, owner ∈ p.allParts ∧ q.id ∈ owner.parts.map Part.id) ∨
      q ∈ p.detached ∧ (∀ owner ∈ p.allParts, q.id ∉ owner.parts.map Part.id) ∧
        p.parent? q.id = none ∧ p.position q.id = 0 := by
  have howned : ∀ owner ∈ p.allParts, q.id ∈ owner.parts.map Part.id →
      p.parent? q.id = some owner := by
    intro owner howner hmem
    obtain ⟨c, hc, hid⟩ := List.mem_map.mp hmem
    exact hid ▸ parent?_of_child hnodup howner hc
  rcases List.mem_append.mp ((Part.flatMap_parts_perm (p.root :: p.detached)).mem_iff.mpr hq)
    with hroot | hchild
  · have hnone := parent?_eq_none_of_root hnodup hroot
    refine .inr ⟨?_, fun owner howner hmem => ?_, hnone, by rw [position, hnone]⟩
    · rcases List.mem_cons.mp hroot with rfl | hdetached
      · exact absurd rfl hne
      · exact hdetached
    · rw [howned owner howner hmem] at hnone
      cases hnone
  · obtain ⟨owner, howner, hmem⟩ := List.mem_flatMap.mp hchild
    refine .inl ⟨owner, ⟨howner, List.mem_map_of_mem hmem⟩, fun other ⟨hother, hmem'⟩ => ?_⟩
    have hsame := howned other hother hmem'
    rw [parent?_of_child hnodup howner hmem] at hsame
    exact (Option.some.inj hsame).symm

end Lookup

/-- How the parts of a pattern stand to each other. -/
structure Arranged (p : Pattern) : Prop where
  numbered : ∀ id, (∃ q, p.part? id = some q) ↔ id < p.size
  root : p.root.id = 0 ∧ p.parent? 0 = none
  /-- Each entry of a list of children is a part with its owner as parent, and knows its place. -/
  child : ∀ q ∈ p.allParts, ∀ i c, q.parts[i]? = some c →
    p.part? c.id = some c ∧ p.parent? c.id = some q ∧ p.position c.id = i
  owned : ∀ q ∈ p.allParts, q.id ≠ 0 →
    (∃! owner, owner ∈ p.allParts ∧ q.id ∈ owner.parts.map Part.id) ∨
      q ∈ p.detached ∧ (∀ owner ∈ p.allParts, q.id ∉ owner.parts.map Part.id) ∧
        p.parent? q.id = none ∧ p.position q.id = 0
  increasing : ∀ q ∈ p.allParts, (∀ c ∈ q.parts, q.id < c.id) ∧ (q.parts.map Part.id).Pairwise (· < ·)
  childless : ∀ q ∈ p.allParts, q.isWildcard = true → q.parts = []
  spaced : ∀ q ∈ p.allParts, ∀ i c d, q.parts[i]? = some c → q.parts[i + 1]? = some d →
    ¬ (c.isWildcard = true ∧ d.isWildcard = true)
  next : ∀ id, p.nextSibling? id = (p.parent? id).bind fun q => q.parts[p.position id + 1]?
  next_literal : ∀ id q next, p.part? id = some q → p.nextSibling? id = some next →
    q.isWildcard = true → next.isWildcard = false
  /-- Matching goes on to the children of a part or to the sibling after it. -/
  forward : ∀ id q, p.part? id = some q →
    (∀ c ∈ q.parts, id < c.id) ∧ ∀ next, p.nextSibling? id = some next → id < next.id

theorem Keeps.nodup (h : p₀.Keeps p) (hids : p₀.allParts.map Part.id = List.range p₀.size) :
    (p.allParts.map Part.id).Nodup :=
  h.ids_perm.nodup_iff.mpr (hids ▸ List.nodup_range)

theorem Keeps.size_eq (h : p₀.Keeps p) : p.size = p₀.size := by
  simpa [size] using h.faces.length_eq

theorem Keeps.exists_part?_iff (h : p₀.Keeps p) (hids : p₀.allParts.map Part.id = List.range p₀.size)
    (id : Nat) : (∃ q, p.part? id = some q) ↔ id < p.size := by
  have hmem := h.ids_perm.mem_iff (a := id)
  rw [hids, List.mem_range, ← h.size_eq, List.mem_map] at hmem
  rw [← hmem]
  exact exists_congr fun q => part?_eq_some_iff (h.nodup hids)

theorem Keeps.arranged (h : p₀.Keeps p) (hids : p₀.allParts.map Part.id = List.range p₀.size)
    (hroot : p₀.root.id = 0) : p.Arranged := by
  have hnodup := h.nodup hids
  have hzero : p.root.id = 0 := h.root.trans hroot
  refine {
    numbered := h.exists_part?_iff hids
    root := ⟨hzero, hzero ▸ parent?_eq_none_of_root hnodup List.mem_cons_self⟩
    child := fun q hq i c hc => ?_
    owned := fun q hq hne => owned_or_detached hnodup hq (hzero ▸ hne)
    increasing := fun q hq => ?_
    childless := fun q _ hw => ?_
    spaced := fun q hq i c d hc hd => ?_
    next := nextSibling?_eq hnodup
    next_literal := fun id q next hq hnext hw => ?_
    forward := fun id q hq => ⟨fun c hc => ?_, fun next hnext => ?_⟩ }
  · obtain ⟨before, after, hsplit, rfl⟩ := exists_split_of_getElem? hc
    have hmem : c ∈ q.parts := hsplit ▸ List.mem_append_right _ List.mem_cons_self
    exact ⟨(part?_eq_some_iff hnodup).mpr ⟨mem_allParts_of_child hq hmem, rfl⟩,
      parent?_of_child hnodup hq hmem, position_of_child hnodup hq hsplit⟩
  · exact ⟨fun c => (h.inOrder q hq).child_lt, (List.pairwise_cons.mp (h.inOrder q hq).increasing).2⟩
  · cases q with
    | literal => cases hw
    | wildcard => rfl
  · rintro ⟨hcw, hdw⟩
    obtain ⟨before, after, hsplit, rfl⟩ := exists_split_of_getElem? hc
    rw [hsplit, getElem?_behind, List.head?_eq_some_iff] at hd
    obtain ⟨after, rfl⟩ := hd
    rw [((h.inOrder q hq).adjacent hsplit).2 hcw] at hdw
    cases hdw
  · obtain ⟨owner, howner, before, c, after, hsplit, rfl⟩ := exists_adjacent_of_nextSibling? hnodup hnext
    obtain ⟨hmem, hid⟩ := mem_allParts_of_part? hq
    have hc : c ∈ p.allParts :=
      mem_allParts_of_child howner (hsplit ▸ List.mem_append_right _ List.mem_cons_self)
    have hsame : q = c := List.inj_on_of_nodup_map hnodup hmem hc hid
    exact ((h.inOrder owner howner).adjacent hsplit).2 (hsame ▸ hw)
  · obtain ⟨hmem, rfl⟩ := mem_allParts_of_part? hq
    exact (h.inOrder q hmem).child_lt hc
  · obtain ⟨owner, howner, before, c, after, hsplit, rfl⟩ := exists_adjacent_of_nextSibling? hnodup hnext
    exact ((h.inOrder owner howner).adjacent hsplit).1

theorem arranged_trims (hp : ofTree recognises source = .ok p) (ids : List Nat) :
    p.Keeps (p.trims ids) ∧ (p.trims ids).Arranged := by
  obtain ⟨hids, hkeeps⟩ := keeps_of_ofTree hp
  have hall := hkeeps.trims (hids ▸ List.nodup_range) ids
  refine ⟨hall, hall.arranged hids ?_⟩
  have hhead : some p.root.id = (List.range p.size).head? := by
    rw [← hids, allParts, Part.preorders, Part.preorder_eq]
    rfl
  rw [List.head?_range] at hhead
  split at hhead
  · cases hhead
  · exact Option.some.inj hhead

end FormulaMatch.Pattern
