import FormulaMatch.Proofs.Taking

/-! Which names the runs of a match carry, and how they stand in its captures. -/

namespace FormulaMatch

open Captures (Entry)

variable {options : Options} {ps : List Part} {queue beyond : List Node} {C D E : Captures}
  {taken : List Entry}

theorem Takes.names (h : Takes options ps queue C taken beyond D) :
    taken.map Prod.fst = Part.names ps := by
  induction h with
  | nil => rfl
  | leaf _ _ _ ih => simpa using ih
  | branch _ _ _ _ _ ihc ih => simp [ihc, ih]
  | last => rfl
  | stop _ _ _ _ _ _ _ _ ih => simpa using ih

theorem Takes.suffix (h : Takes options ps queue C taken beyond D) : ∃ used, queue = used ++ beyond := by
  induction h with
  | nil => exact ⟨[], rfl⟩
  | leaf _ _ _ ih =>
    obtain ⟨used, rfl⟩ := ih
    exact ⟨_ :: used, rfl⟩
  | branch _ _ _ _ _ _ ih =>
    obtain ⟨used, rfl⟩ := ih
    exact ⟨_ :: used, rfl⟩
  | last => exact ⟨_, (List.append_nil _).symm⟩
  | @stop _ _ _ _ n before _ _ _ _ _ _ _ _ _ _ _ _ _ _ _ _ _ _ ih =>
    obtain ⟨used, hu⟩ := ih
    exact ⟨n :: (before ++ used), by simp [hu]⟩

theorem Takes.heldBy (h : Takes options ps queue C taken beyond D) : C.HeldBy D := by
  induction h with
  | nil _ C => exact .refl C
  | leaf _ _ _ ih => exact ih
  | branch _ _ _ _ _ ihc ih => exact ihc.trans ih
  | last assigned => exact .of_assign assigned
  | stop _ _ _ _ _ assigned _ ihl ih => exact (ihl.trans (.of_assign assigned)).trans ih

/-- Every run has the shape of what is captured under its name in the end. -/
theorem Takes.shape? (h : Takes options ps queue C taken beyond D) :
    ∀ entry ∈ taken, D.shape? entry.1 = some (entry.2.map Formula.bare) := by
  induction h with
  | nil => simp
  | leaf _ _ _ ih => exact ih
  | branch _ _ _ _ tail ihc ih =>
    intro entry he
    rcases List.mem_append.mp he with he | he
    · exact tail.heldBy.shape? (ihc entry he)
    · exact ih entry he
  | last assigned => simpa using Captures.shape?_of_assign assigned
  | stop _ _ _ _ _ assigned tail _ ih =>
    intro entry he
    rcases List.mem_cons.mp he with rfl | he
    · exact tail.heldBy.shape? (Captures.shape?_of_assign assigned)
    · exact ih entry he

theorem shape?_or_of_assign {name other : String} {run : List Node} {s : List Expr}
    (h : C.assign name run = .matched D) (hs : D.shape? other = some s) :
    C.shape? other = some s ∨ other = name := by
  obtain ⟨_, rfl⟩ := Captures.assign_eq_matched_iff.mp h
  rw [Captures.shape?_insert] at hs
  split at hs
  · exact .inr ‹_›
  · exact .inl hs

/-- Nothing is captured but what was captured before and what the wildcards take in. -/
theorem Takes.shape?_or (h : Takes options ps queue C taken beyond D) {name : String} {s : List Expr}
    (hs : D.shape? name = some s) : C.shape? name = some s ∨ name ∈ Part.names ps := by
  induction h with
  | nil => exact .inl hs
  | leaf _ _ _ ih => simpa using ih hs
  | branch _ _ _ _ _ ihc ih =>
    rw [Part.names_literal, List.mem_append]
    rcases ih hs with hs | hn
    · exact (ihc hs).imp_right .inl
    · exact .inr (.inr hn)
  | last assigned => exact (shape?_or_of_assign assigned hs).imp_right (by simp [·])
  | stop _ _ _ _ _ assigned _ ihl ih =>
    rw [Part.names_wildcard, List.mem_cons]
    rcases ih hs with hs | hn
    · rcases shape?_or_of_assign assigned hs with hs | rfl
      · refine (ihl hs).imp_right fun hn => .inr ?_
        rw [Part.names_cons]
        exact List.mem_append_left _ hn
      · exact .inr (.inl rfl)
    · exact .inr (.inr hn)

theorem Takes.exists_entry (h : Takes options ps queue C taken beyond D) {name : String}
    (hn : name ∈ Part.names ps) : ∃ run, (name, run) ∈ taken := by
  rw [← h.names, List.mem_map] at hn
  obtain ⟨⟨_, run⟩, he, rfl⟩ := hn
  exact ⟨run, he⟩

/-- The captures at the end are held where those at the start and the runs between are. -/
theorem Takes.heldBy_of (h : Takes options ps queue C taken beyond D) (hC : C.HeldBy E)
    (hE : ∀ entry ∈ taken, E.shape? entry.1 = some (entry.2.map Formula.bare)) : D.HeldBy E := by
  refine Captures.heldBy_iff.mpr fun name s hs => ?_
  rcases h.shape?_or hs with hs' | hn
  · exact hC.shape? hs'
  · obtain ⟨run, he⟩ := h.exists_entry hn
    have hrun := h.shape? _ he
    rw [hs] at hrun
    exact hrun ▸ hE _ he

end FormulaMatch
