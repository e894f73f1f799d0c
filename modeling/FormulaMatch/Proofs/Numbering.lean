import FormulaMatch.Proofs.Siblings
import FormulaMatch.Proofs.Trimming

/-! Numbers of parts. Whatever was cut off, no part changes its number, its head or its kind, every part
stands in one list of children at most, and numbers grow from a part to its children and from each
child to the next. -/

namespace FormulaMatch

namespace Part

variable {id : Nat} {p q first : Part} {ps tail : List Part}

def face (p : Part) : Nat × Head × Bool := (p.id, p.head, p.isWildcard)

theorem face_trim (id : Nat) (p : Part) : (p.trim id).face = p.face := by
  cases p <;> simp [trim, face, Part.id, head, isWildcard]

theorem id_trim (id : Nat) (p : Part) : (p.trim id).id = p.id := congrArg Prod.fst (face_trim id p)

theorem preorder_eq (p : Part) : p.preorder = p :: preorders p.parts := by
  cases p <;> rfl

theorem sublist_preorders (ps : List Part) : ps.Sublist (preorders ps) := by
  induction ps with
  | nil => exact .slnil
  | cons p ps ih =>
    rw [preorders, preorder_eq]
    exact (ih.trans (List.sublist_append_right _ _)).cons_cons p

theorem preorder_sublist (hq : q ∈ preorders ps) : q.preorder.Sublist (preorders ps) := by
  induction ps using row_induction with
  | nil => simp [preorders] at hq
  | literal i h ps rest ihps ihrest =>
    rw [preorders]
    rcases List.mem_append.mp hq with hq | hq
    · refine .trans ?_ (List.sublist_append_left _ _)
      rcases List.mem_cons.mp hq with rfl | hq
      · exact .refl _
      · exact (ihps hq).trans (List.sublist_cons_self _ _)
    · exact (ihrest hq).trans (List.sublist_append_right _ _)
  | wildcard i h rest ihrest _ =>
    rw [preorders]
    rcases List.mem_append.mp hq with hq | hq
    · obtain rfl := List.mem_singleton.mp hq
      exact List.sublist_append_left _ _
    · exact (ihrest hq).trans (List.sublist_append_right _ _)

theorem mem_preorders_of_parts (hq : q ∈ preorders ps) (hp : p ∈ preorders q.parts) : p ∈ preorders ps :=
  (preorder_sublist hq).subset (q.preorder_eq ▸ List.mem_cons_of_mem q hp)

/-- Every part is a child of one of the others or stands in the row itself. -/
theorem flatMap_parts_perm (ps : List Part) : (ps ++ (preorders ps).flatMap parts).Perm (preorders ps) := by
  induction ps using row_induction with
  | nil => exact .refl _
  | literal i h ps rest ihps ihrest =>
    have hall := (List.perm_append_comm_assoc rest (ps ++ (preorders ps).flatMap parts) _).trans
      (ihps.append ihrest)
    simpa [preorders, preorder, parts] using hall
  | wildcard i h rest ihrest _ => simpa [preorders, preorder, parts] using ihrest

theorem trim_of_not_mem (h : id ∉ p.preorder.map Part.id) : p.trim id = p :=
  trim_of_childless fun _ hq hid => absurd (hid ▸ List.mem_map_of_mem hq) h

theorem map_trim_of_not_mem (h : id ∉ (preorders ps).map Part.id) : ps.map (trim id) = ps := by
  rw [preorders_eq_flatMap, List.map_flatMap, List.mem_flatMap] at h
  push Not at h
  rw [List.map_congr_left fun p hp => trim_of_not_mem (h p hp), List.map_id']

theorem faces_trims_perm_of_forall (hid : q.id = id)
    (hps : ∀ p ∈ ps, (p.preorder.map Part.id).Nodup → q ∈ p.preorder →
      (first.preorder.map face ++ (p.trim id).preorder.map face).Perm (p.preorder.map face))
    (hnodup : ((preorders ps).map Part.id).Nodup) (hq : q ∈ preorders ps) :
    (first.preorder.map face ++ (preorders (ps.map (trim id))).map face).Perm
      ((preorders ps).map face) := by
  induction ps with
  | nil => simp [preorders] at hq
  | cons p ps ih =>
    obtain ⟨hp, hps⟩ := List.forall_mem_cons.mp hps
    rw [preorders, List.map_append, List.nodup_append'] at hnodup
    obtain ⟨hnodup, hnodups, hdisjoint⟩ := hnodup
    rw [List.map_cons, preorders, preorders, List.map_append, List.map_append]
    -- The number occurs in one of `p` and `ps` alone, so the cut leaves the other as it is.
    rcases List.mem_append.mp hq with hq | hq
    · have hin : id ∈ p.preorder.map Part.id := hid ▸ List.mem_map_of_mem hq
      rw [map_trim_of_not_mem (hdisjoint hin), ← List.append_assoc]
      exact (hp hnodup hq).append_right _
    · have hin : id ∈ (preorders ps).map Part.id := hid ▸ List.mem_map_of_mem hq
      rw [trim_of_not_mem fun hp => hdisjoint hp hin]
      exact (List.perm_append_comm_assoc _ _ _).trans ((ih hps hnodups hq).append_left _)

theorem faces_trim_perm (hid : q.id = id) (hparts : q.parts = first :: tail)
    (hnodup : (p.preorder.map Part.id).Nodup) (hq : q ∈ p.preorder) :
    (first.preorder.map face ++ (p.trim id).preorder.map face).Perm (p.preorder.map face) := by
  have hface : ∀ i h ps qs, (literal i h ps).face = (literal i h qs).face := fun _ _ _ _ => rfl
  induction p using induction with
  | wildcard i h =>
    obtain rfl := List.mem_singleton.mp hq
    cases hparts
  | literal i h ps ih =>
    rw [preorder, List.map_cons, List.nodup_cons] at hnodup
    obtain ⟨hi, hnodup⟩ := hnodup
    rw [trim_literal, preorder, preorder, List.map_cons, List.map_cons]
    refine List.perm_middle.trans ?_
    rcases List.mem_cons.mp hq with rfl | hq
    · obtain rfl : i = id := hid
      obtain rfl : ps = first :: tail := hparts
      rw [if_pos rfl, List.drop_one, List.tail_cons, hface i h tail (first :: tail), preorders,
        List.map_append]
    · have hin : id ∈ (preorders ps).map Part.id := hid ▸ List.mem_map_of_mem hq
      have hne : i ≠ id := fun he => hi (he ▸ hin)
      rw [if_neg hne, hface i h _ ps]
      exact (faces_trims_perm_of_forall hid ih hnodup hq).cons _

/-- A cut moves the first child of one part out of the row and leaves all parts what they are. -/
theorem faces_trims_perm (hid : q.id = id) (hparts : q.parts = first :: tail)
    (hnodup : ((preorders ps).map Part.id).Nodup) (hq : q ∈ preorders ps) :
    ((preorders (first :: ps.map (trim id))).map face).Perm ((preorders ps).map face) := by
  rw [preorders, List.map_append]
  exact faces_trims_perm_of_forall hid (fun _ _ => faces_trim_perm hid hparts) hnodup hq

/-- The children of a part are in order: their numbers grow, from that of the part on, and no two
wildcards stand next to each other. -/
structure InOrder (p : Part) : Prop where
  increasing : (p.id :: p.parts.map Part.id).Pairwise (· < ·)
  spaced : Spaced p.parts

theorem InOrder.child_lt (hp : p.InOrder) (hq : q ∈ p.parts) : p.id < q.id :=
  (List.pairwise_cons.mp hp.increasing).1 q.id (List.mem_map_of_mem hq)

theorem InOrder.adjacent {next : Part} {before after : List Part} (hp : p.InOrder)
    (h : p.parts = before ++ q :: next :: after) :
    q.id < next.id ∧ (q.isWildcard = true → next.isWildcard = false) := by
  obtain ⟨hincreasing, hspaced⟩ := hp
  rw [h] at hincreasing hspaced
  constructor
  · have htail := (List.pairwise_cons.mp hincreasing).2
    rw [List.map_append, List.map_cons, List.map_cons] at htail
    exact (List.pairwise_cons.mp (List.pairwise_append.mp htail).2.1).1 _ List.mem_cons_self
  · exact (List.isChain_append_cons_cons.mp hspaced).2.1

theorem InOrder.drop {i : Nat} {h : Head} (hp : (literal i h ps).InOrder) (k : Nat) :
    (literal i h (ps.drop k)).InOrder := by
  refine ⟨hp.increasing.sublist (.cons_cons _ ?_), hp.spaced.drop k⟩
  exact (List.drop_sublist k ps).map Part.id

theorem InOrder.map_trim {i : Nat} {h : Head} (hp : (literal i h ps).InOrder) (id : Nat) :
    (literal i h (ps.map (trim id))).InOrder := by
  obtain ⟨hincreasing, hspaced⟩ := hp
  constructor
  · have hids : (ps.map (trim id)).map Part.id = ps.map Part.id := by
      rw [List.map_map]
      exact List.map_congr_left fun p _ => id_trim id p
    rw [parts, hids]
    exact hincreasing
  · exact spaced_map_trim.mpr hspaced

theorem inOrder_trim (hp : ∀ q ∈ p.preorder, q.InOrder) (id : Nat) :
    ∀ q ∈ (p.trim id).preorder, q.InOrder :=
  forall_preorder_trim (fun _ _ _ h => h.drop 1) (fun _ _ _ h => h.map_trim id) hp

end Part

namespace Pattern

variable {recognises : String → Bool} {source : Tree} {p₀ p : Pattern}

/-- What no cut changes: the faces of all parts, and the order in which children stand. -/
structure Keeps (p₀ p : Pattern) : Prop where
  root : p.root.id = p₀.root.id
  faces : (p.allParts.map Part.face).Perm (p₀.allParts.map Part.face)
  inOrder : ∀ q ∈ p.allParts, q.InOrder

theorem Keeps.ids_perm (h : p₀.Keeps p) : (p.allParts.map Part.id).Perm (p₀.allParts.map Part.id) := by
  have hids : ∀ ps : List Part, (ps.map Part.face).map Prod.fst = ps.map Part.id := fun ps => by
    rw [List.map_map]
    rfl
  rw [← hids, ← hids]
  exact h.faces.map Prod.fst

theorem allParts_of_ofTree (h : ofTree recognises source = .ok p) : p.allParts = p.root.preorder := by
  rw [allParts, (ofTree_eq_ok_iff.mp h).2.2, Part.preorders, Part.preorders, List.append_nil]

theorem map_source_allParts (h : ofTree recognises source = .ok p) :
    p.allParts.map Part.source = source.nodes := by
  rw [allParts_of_ofTree h, Part.map_source_preorder, (ofTree_eq_ok_iff.mp h).1, Tree.nodes]

theorem keeps_of_ofTree (h : ofTree recognises source = .ok p) :
    p.allParts.map Part.id = List.range p.size ∧ p.Keeps p := by
  obtain ⟨hsource, hlawful, -⟩ := ofTree_eq_ok_iff.mp h
  have hall := allParts_of_ofTree h
  have hids : p.allParts.map Part.id = List.range p.size := by
    have hlength := congrArg List.length (Part.map_label_preorder_source p.root)
    rw [List.length_map, List.length_map, Formula.length_preorder] at hlength
    rw [size, hall, ← hlength, ← Part.map_label_preorder_source, hsource, source.numbered]
  refine ⟨hids, rfl, .refl _, fun q hq => ⟨?_, ?_⟩⟩
  · have hbelow : (q :: q.parts).Sublist p.allParts := by
      refine .trans ?_ (Part.preorder_sublist hq)
      rw [q.preorder_eq]
      exact (Part.sublist_preorders q.parts).cons_cons q
    have hsorted : (p.allParts.map Part.id).Pairwise (· < ·) := hids ▸ List.pairwise_lt_range
    exact hsorted.sublist (hbelow.map Part.id)
  · exact (hlawful q (hall ▸ hq)).2

theorem mem_allParts_of_part? {id : Nat} {q : Part} (h : p.part? id = some q) :
    q ∈ p.allParts ∧ q.id = id :=
  ⟨List.mem_of_find?_eq_some h, by simpa using List.find?_some h⟩

/-- A cut takes the first child of a part out of its list and puts it among the detached parts. -/
theorem Keeps.trim (h : p₀.Keeps p) (hnodup : (p₀.allParts.map Part.id).Nodup) (id : Nat) :
    p₀.Keeps (p.trim id).2 := by
  unfold Pattern.trim
  split
  · rename_i first hfirst
    obtain ⟨q, hq, hhead⟩ := Option.bind_eq_some_iff.mp hfirst
    obtain ⟨hmem, hid⟩ := mem_allParts_of_part? hq
    obtain ⟨tail, hparts⟩ := List.head?_eq_some_iff.mp hhead
    have hmoved : (Part.preorders (first :: (p.root :: p.detached).map (Part.trim id))).Perm
        (Part.preorders (p.root.trim id :: first :: p.detached.map (Part.trim id))) := by
      simp only [List.map_cons, Part.preorders]
      exact List.perm_append_comm_assoc _ _ _
    refine ⟨(Part.id_trim id p.root).trans h.root, ?_, ?_⟩
    · refine ((hmoved.map Part.face).symm.trans ?_).trans h.faces
      exact Part.faces_trims_perm hid hparts (h.ids_perm.nodup_iff.mpr hnodup) hmem
    · intro r hr
      have hrow := hmoved.mem_iff.mpr hr
      rw [Part.preorders, List.mem_append, Part.preorders_eq_flatMap, List.flatMap_map,
        List.mem_flatMap] at hrow
      rcases hrow with hrow | ⟨root, hroot, hrow⟩
      · refine h.inOrder r (Part.mem_preorders_of_parts hmem ?_)
        rw [hparts, Part.preorders]
        exact List.mem_append_left _ hrow
      · refine Part.inOrder_trim (fun q hq => h.inOrder q ?_) id r hrow
        rw [allParts, Part.preorders_eq_flatMap]
        exact List.mem_flatMap.mpr ⟨root, hroot, hq⟩
  · exact h

theorem Keeps.trims (h : p₀.Keeps p) (hnodup : (p₀.allParts.map Part.id).Nodup) (ids : List Nat) :
    p₀.Keeps (p.trims ids) := by
  induction ids generalizing p with
  | nil => exact h
  | cons id ids ih => exact ih (h.trim hnodup id)

end Pattern

end FormulaMatch
