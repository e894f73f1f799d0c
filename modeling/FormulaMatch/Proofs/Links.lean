import FormulaMatch.Pattern.Arena
import Mathlib.Data.List.Nodup
import Mathlib.Data.List.Chain

/-! Links between the slots of a stored pattern. What a slot keeps of its parent and its place always agrees
with the lists of children, for the cut of a first child moves the places of the others by hand. -/

namespace FormulaMatch

section Places

variable {slots : List Slot} {ids : List Nat} {position id : Nat}

theorem length_placeFrom : (placeFrom position ids slots).length = slots.length := by
  induction ids generalizing position slots with
  | nil => rfl
  | cons i ids ih => rw [placeFrom, ih, List.length_modify]

theorem getElem?_placeFrom_of_not_mem (h : id ∉ ids) : (placeFrom position ids slots)[id]? = slots[id]? := by
  induction ids generalizing position slots with
  | nil => rfl
  | cons i ids ih =>
    obtain ⟨hne, hids⟩ := not_or.mp (List.mem_cons.not.mp h)
    rw [placeFrom, ih hids, List.getElem?_modify_ne _ _ (Ne.symm hne)]

theorem getElem?_placeFrom_of_mem (hnodup : ids.Nodup) (h : id ∈ ids) :
    (placeFrom position ids slots)[id]? =
      slots[id]?.map fun s => { s with position := position + ids.idxOf id } := by
  induction ids generalizing position slots with
  | nil => cases h
  | cons i ids ih =>
    obtain ⟨hi, hnodup⟩ := List.nodup_cons.mp hnodup
    by_cases he : i = id
    · subst he
      rw [placeFrom, getElem?_placeFrom_of_not_mem hi, List.getElem?_modify_eq, List.idxOf_cons_self,
        Nat.add_zero]
      rfl
    · have hmem : id ∈ ids := (List.mem_cons.mp h).resolve_left (Ne.symm he)
      rw [placeFrom, ih hnodup hmem, List.getElem?_modify_ne _ _ he, List.idxOf_cons_ne ids he,
        Nat.succ_eq_add_one, Nat.add_assoc, Nat.add_comm 1]

end Places

/-- The text, tag and features of a slot, and its name if it is a wildcard. -/
def Slot.face (s : Slot) : Head × Option String := (s.head, s.wildcardName?)

/-- What slot `j` is after `removed` was cut off slot `id`, which keeps the children `remaining`. -/
def Slot.cut (id removed : Nat) (remaining : List Nat) (j : Nat) (s : Slot) : Slot where
  head := s.head
  kind := if j = id then .literal remaining else s.kind
  parent := if j = removed then none else s.parent
  position := if j = removed then 0 else if j ∈ remaining then remaining.idxOf j else s.position

namespace PatternArena

variable {a : PatternArena} {id removed : Nat} {remaining : List Nat} {s : Slot}

theorem removeFirst_of_childless (h : a.children id = []) : a.removeFirst id = (none, a) := by
  fun_cases removeFirst a id with
  | case1 hd removed remaining parent position hs =>
    rw [children, hs] at h
    cases h
  | case2 => rfl

theorem exists_slot?_of_children {ids : List Nat} (h : a.children id = ids) (hids : ids ≠ []) :
    ∃ s, a.slot? id = some s ∧ s.children = ids := by
  unfold children at h
  cases hs : a.slot? id with
  | none =>
    rw [hs] at h
    exact absurd h.symm hids
  | some s =>
    rw [hs] at h
    exact ⟨s, rfl, h⟩

/-- A cut changes the slot that loses a child, the child, and the places of those that move up. -/
theorem removeFirst_spec (hs : a.slot? id = some s) (hc : s.children = removed :: remaining)
    (hsorted : (id :: removed :: remaining).Pairwise (· < ·)) :
    ∃ b, a.removeFirst id = (some removed, b) ∧ b.root = a.root ∧ b.size = a.size ∧
      ∀ j, b.slot? j = (a.slot? j).map (Slot.cut id removed remaining j) := by
  obtain ⟨hd, kind, parent, position⟩ := s
  obtain rfl : kind = .literal (removed :: remaining) := by
    cases kind with
    | literal ids => exact congrArg SlotKind.literal hc
    | wildcard name => cases hc
  have hcut : a.removeFirst id = (some removed, { a with
      slots := (placeFrom 0 remaining (a.slots.modify id fun s => { s with kind := .literal remaining })).modify
        removed fun s => { s with parent := none, position := 0 } }) := by
    rw [removeFirst, hs]
  refine ⟨_, hcut, rfl, ?_, fun j => ?_⟩
  · rw [size, List.length_modify, length_placeFrom, List.length_modify, size]
  · have hnodup : (id :: removed :: remaining).Nodup := hsorted.imp Nat.ne_of_lt
    obtain ⟨hid, hnodup⟩ := List.nodup_cons.mp hnodup
    obtain ⟨hremoved, hnodup⟩ := List.nodup_cons.mp hnodup
    obtain ⟨hne, hid⟩ := not_or.mp (List.mem_cons.not.mp hid)
    rw [slot?, slot?, List.getElem?_modify]
    by_cases hj : j = removed
    · subst hj
      rw [getElem?_placeFrom_of_not_mem hremoved, List.getElem?_modify_ne _ _ hne]
      cases a.slots[j]? <;> simp [Slot.cut, Ne.symm hne]
    · by_cases hmem : j ∈ remaining
      · have hji : j ≠ id := fun he => hid (he ▸ hmem)
        rw [getElem?_placeFrom_of_mem hnodup hmem, List.getElem?_modify_ne _ _ (Ne.symm hji)]
        cases a.slots[j]? <;> simp [Slot.cut, hj, hmem, hji, Ne.symm hj]
      · rw [getElem?_placeFrom_of_not_mem hmem, List.getElem?_modify]
        by_cases hji : id = j
        · subst hji
          cases a.slots[id]? <;> simp [Slot.cut, hne, hid, Ne.symm hne]
        · cases a.slots[j]? <;> simp [Slot.cut, hj, hmem, hji, Ne.symm hj, Ne.symm hji]

/-- The links of an arena: what slots keep of their parents and places, and the order of children. -/
structure Linked (a : PatternArena) : Prop where
  root : a.root = 0 ∧ ∃ s, a.slot? 0 = some s ∧ s.parent = none
  child : ∀ i s, a.slot? i = some s → ∀ k c, s.children[k]? = some c →
    ∃ d, a.slot? c = some d ∧ d.parent = some i ∧ d.position = k
  owned : ∀ i s, a.slot? i = some s →
    (∃ o t, s.parent = some o ∧ a.slot? o = some t ∧ t.children[s.position]? = some i) ∨
      s.parent = none ∧ s.position = 0
  increasing : ∀ i s, a.slot? i = some s → (i :: s.children).Pairwise (· < ·)
  spaced : ∀ i s, a.slot? i = some s →
    s.children.IsChain fun c d => ¬ (a.isWildcard c = true ∧ a.isWildcard d = true)

theorem Linked.parent_of_mem (h : a.Linked) {i c : Nat} (hs : a.slot? i = some s) (hc : c ∈ s.children) :
    ∃ d, a.slot? c = some d ∧ d.parent = some i ∧ s.children[d.position]? = some c := by
  obtain ⟨k, hk⟩ := List.mem_iff_getElem?.mp hc
  obtain ⟨d, hd, hparent, rfl⟩ := h.child i s hs k c hk
  exact ⟨d, hd, hparent, hk⟩

section Cut

variable {b : PatternArena} {i j : Nat}

theorem children_cut (s : Slot) : (Slot.cut id removed remaining i s).children =
    if i = id then remaining else s.children := by
  by_cases hi : i = id <;> simp [Slot.cut, Slot.children, hi]

theorem parent_cut (hi : i ≠ removed) (s : Slot) : (Slot.cut id removed remaining i s).parent = s.parent := by
  simp [Slot.cut, hi]

theorem position_cut (hi : i ≠ removed) (hmem : i ∉ remaining) (s : Slot) :
    (Slot.cut id removed remaining i s).position = s.position := by
  simp [Slot.cut, hi, hmem]

theorem wildcardName?_cut (hc : s.children ≠ []) (t : Slot) (ht : i = id → t = s) :
    (Slot.cut id removed remaining i t).wildcardName? = t.wildcardName? := by
  by_cases hi : i = id
  · obtain rfl := ht hi
    cases hk : t.kind with
    | literal ids => simp [Slot.cut, Slot.wildcardName?, hi, hk]
    | wildcard name => simp [Slot.children, hk] at hc
  · simp [Slot.cut, Slot.wildcardName?, hi]

section Kids

variable (h : a.Linked) (hs : a.slot? id = some s) (hc : s.children = removed :: remaining)

include h hs hc

/-- The slots that are cut off or move up are those whose parent is `id`. -/
theorem parent_of_kid {c : Nat} {d : Slot} (hd : a.slot? c = some d) (hmem : c ∈ removed :: remaining) :
    d.parent = some id := by
  obtain ⟨d', hd', hparent, -⟩ := h.parent_of_mem hs (hc ▸ hmem)
  rw [hd, Option.some.injEq] at hd'
  rw [hd', hparent]

theorem stays_of_parent_ne {c : Nat} {d : Slot} (hd : a.slot? c = some d) (hne : d.parent ≠ some id) :
    c ≠ removed ∧ c ∉ remaining := by
  refine not_or.mp fun hmem => hne (parent_of_kid h hs hc hd ?_)
  exact List.mem_cons.mpr hmem

end Kids

variable (h : a.Linked) (hs : a.slot? id = some s) (hc : s.children = removed :: remaining)
  (hb : ∀ j, b.slot? j = (a.slot? j).map (Slot.cut id removed remaining j))

include hs hc hb

theorem isWildcard_cut : b.isWildcard = a.isWildcard := by
  funext i
  unfold isWildcard
  rw [hb]
  cases ht : a.slot? i with
  | none => rfl
  | some t =>
    have hne : s.children ≠ [] := by simp [hc]
    have hname : (Slot.cut id removed remaining i t).wildcardName? = t.wildcardName? :=
      wildcardName?_cut hne t fun hi => by simpa [hi, hs] using ht.symm
    simp [Slot.isWildcard, hname]

include h

theorem child_cut {t : Slot} (ht : a.slot? i = some t) {k c : Nat}
    (hk : (Slot.cut id removed remaining i t).children[k]? = some c) :
    ∃ d, b.slot? c = some d ∧ d.parent = some i ∧ d.position = k := by
  rw [children_cut] at hk
  by_cases hi : i = id
  · subst hi
    rw [if_pos rfl] at hk
    obtain ⟨d, hd, hparent, -⟩ := h.child i s hs (k + 1) c (by rw [hc, List.getElem?_cons_succ, hk])
    have hsorted := h.increasing i s hs
    rw [hc] at hsorted
    obtain ⟨hremoved, hnodup⟩ := List.nodup_cons.mp (hsorted.tail.imp Nat.ne_of_lt)
    have hne : c ≠ removed := fun he => hremoved (he ▸ List.mem_of_getElem? hk)
    refine ⟨_, by rw [hb, hd, Option.map_some], (parent_cut hne d).trans hparent, ?_⟩
    obtain ⟨hlt, rfl⟩ := List.getElem?_eq_some_iff.mp hk
    simp [Slot.cut, hne, hnodup.idxOf_getElem]
  · rw [if_neg hi] at hk
    obtain ⟨d, hd, hparent, hposition⟩ := h.child i t ht k c hk
    obtain ⟨hne, hmem⟩ := stays_of_parent_ne h hs hc hd (by simpa [hparent] using hi)
    exact ⟨_, by rw [hb, hd, Option.map_some], (parent_cut hne d).trans hparent,
      (position_cut hne hmem d).trans hposition⟩

theorem owned_cut {t t' : Slot} (ht : a.slot? i = some t) (ht' : t' = Slot.cut id removed remaining i t) :
    (∃ o u, t'.parent = some o ∧ b.slot? o = some u ∧ u.children[t'.position]? = some i) ∨
      t'.parent = none ∧ t'.position = 0 := by
  subst ht'
  by_cases hi : i = removed
  · exact .inr (by simp [Slot.cut, hi])
  rw [parent_cut hi]
  rcases h.owned i t ht with ⟨o, u, hparent, hu, hentry⟩ | ⟨hparent, hposition⟩
  · refine .inl ⟨o, _, hparent, by rw [hb, hu, Option.map_some], ?_⟩
    rw [children_cut]
    by_cases ho : o = id
    · subst ho
      rw [hs, Option.some.injEq] at hu
      rw [← hu, hc] at hentry
      have hmem : i ∈ remaining := (List.mem_cons.mp (List.mem_of_getElem? hentry)).resolve_left hi
      simp [Slot.cut, hi, hmem]
    · obtain ⟨-, hmem⟩ := stays_of_parent_ne h hs hc ht (by simpa [hparent] using ho)
      rw [if_neg ho, position_cut hi hmem, hentry]
  · obtain ⟨-, hmem⟩ := stays_of_parent_ne h hs hc ht (by simp [hparent])
    exact .inr ⟨hparent, (position_cut hi hmem t).trans hposition⟩

/-- Links survive a cut: the slot cut off loses its parent, and those behind it move up with their
places. -/
theorem Linked.cut (hroot : b.root = a.root) : b.Linked := by
  have hslot : ∀ i t', b.slot? i = some t' →
      ∃ t, a.slot? i = some t ∧ t' = Slot.cut id removed remaining i t := by
    intro i t' ht'
    rw [hb] at ht'
    obtain ⟨t, ht, heq⟩ := Option.map_eq_some_iff.mp ht'
    exact ⟨t, ht, heq.symm⟩
  refine ⟨?_, fun i t' ht' => ?_, fun i t' ht' => ?_, fun i t' ht' => ?_, fun i t' ht' => ?_⟩
  · obtain ⟨hzero, r, hr, hparent⟩ := h.root
    exact ⟨hroot.trans hzero, _, by rw [hb, hr, Option.map_some], by simp [Slot.cut, hparent]⟩
  · obtain ⟨t, ht, rfl⟩ := hslot i t' ht'
    exact fun k c => child_cut h hs hc hb ht
  · obtain ⟨t, ht, heq⟩ := hslot i t' ht'
    exact owned_cut h hs hc hb ht heq
  · obtain ⟨t, ht, rfl⟩ := hslot i t' ht'
    have hsorted := h.increasing id s hs
    rw [hc] at hsorted
    rw [children_cut]
    split
    · rename_i hi
      exact hi ▸ hsorted.sublist ((List.sublist_cons_self _ _).cons_cons _)
    · exact h.increasing i t ht
  · obtain ⟨t, ht, rfl⟩ := hslot i t' ht'
    have hspaced := h.spaced id s hs
    rw [hc] at hspaced
    rw [children_cut, isWildcard_cut hs hc hb]
    split
    · exact hspaced.tail
    · exact h.spaced i t ht

end Cut

/-- A cut leaves an arena as it is, or takes the first child off one slot. -/
theorem Linked.removeFirst_cases (h : a.Linked) (id : Nat) :
    a.children id = [] ∧ a.removeFirst id = (none, a) ∨
      ∃ s removed remaining b, a.slot? id = some s ∧ s.children = removed :: remaining ∧
        a.removeFirst id = (some removed, b) ∧ b.root = a.root ∧ b.size = a.size ∧
        ∀ j, b.slot? j = (a.slot? j).map (Slot.cut id removed remaining j) := by
  cases hids : a.children id with
  | nil => exact .inl ⟨rfl, removeFirst_of_childless hids⟩
  | cons removed remaining =>
    obtain ⟨s, hs, hc⟩ := exists_slot?_of_children hids (List.cons_ne_nil _ _)
    have hsorted := h.increasing id s hs
    rw [hc] at hsorted
    obtain ⟨b, hb⟩ := removeFirst_spec hs hc hsorted
    exact .inr ⟨s, removed, remaining, b, hs, hc, hb⟩

/-- The arena is linked, and its slots have the faces that those of `a₀` had. -/
structure Keeps (a₀ a : PatternArena) : Prop where
  linked : a.Linked
  size : a.size = a₀.size
  face : ∀ id, (a.slot? id).map Slot.face = (a₀.slot? id).map Slot.face

theorem Keeps.removeFirst {a₀ : PatternArena} (h : a₀.Keeps a) (id : Nat) :
    a₀.Keeps (a.removeFirst id).2 := by
  rcases h.linked.removeFirst_cases id with
    ⟨-, hnone⟩ | ⟨s, removed, remaining, b, hs, hc, hcut, hroot, hsize, hb⟩
  · rw [hnone]
    exact h
  · rw [hcut]
    refine ⟨h.linked.cut hs hc hb hroot, hsize.trans h.size, fun i => ?_⟩
    rw [hb, ← h.face]
    cases ht : a.slot? i with
    | none => rfl
    | some t =>
      have hne : s.children ≠ [] := by simp [hc]
      have hname : (Slot.cut id removed remaining i t).wildcardName? = t.wildcardName? :=
        wildcardName?_cut hne t fun hi => by simpa [hi, hs] using ht.symm
      simp only [Option.map_some, Slot.face, hname]
      rfl

theorem Keeps.removes {a₀ : PatternArena} (h : a₀.Keeps a) (ids : List Nat) : a₀.Keeps (a.removes ids) :=
  List.foldlRecOn ids _ h fun _ hb id _ => hb.removeFirst id

theorem Linked.removes (h : a.Linked) (ids : List Nat) : a.Keeps (a.removes ids) :=
  Keeps.removes ⟨h, rfl, fun _ => rfl⟩ ids

end PatternArena

end FormulaMatch
