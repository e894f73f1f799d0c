import FormulaMatch.Pattern.Basic

/-! Rows of parts: induction over them, and the names of their wildcards in the order in which these
occur. -/

namespace FormulaMatch.Part

/-- A row that starts with a wildcard may look at the part after it alone, so the statement is also
available for that part as a row of its own. -/
@[elab_as_elim]
theorem row_induction {P : List Part → Prop} (nil : P [])
    (literal : ∀ i h ps rest, P ps → P rest → P (.literal i h ps :: rest))
    (wildcard : ∀ i h rest, P rest → (∀ p ∈ rest, P [p]) → P (.wildcard i h :: rest))
    (ps : List Part) : P ps := by
  have hrow : ∀ p : Part, ∀ rest, P rest → (∀ q ∈ rest, P [q]) → P (p :: rest) := by
    intro p
    induction p using induction with
    | wildcard i h => exact fun rest => wildcard i h rest
    | literal i h ps ih =>
      have hps : P ps ∧ ∀ q ∈ ps, P [q] := by
        induction ps with
        | nil => exact ⟨nil, by simp⟩
        | cons p ps ihps =>
          have hp := ih p (by simp)
          have hrest := ihps fun q hq => ih q (by simp [hq])
          exact ⟨hp ps hrest.1 hrest.2, List.forall_mem_cons.mpr ⟨hp [] nil (by simp), hrest.2⟩⟩
      exact fun rest hr _ => literal i h ps rest hps.1 hr
  have hall : P ps ∧ ∀ q ∈ ps, P [q] := by
    induction ps with
    | nil => exact ⟨nil, by simp⟩
    | cons p ps ih =>
      exact ⟨hrow p ps ih.1 ih.2, List.forall_mem_cons.mpr ⟨hrow p [] nil (by simp), ih.2⟩⟩
  exact hall.1

def names (ps : List Part) : List String := (preorders ps).filterMap wildcardName?

@[simp] theorem names_nil : names [] = [] := rfl

theorem names_singleton (p : Part) : names [p] = p.preorder.filterMap wildcardName? := by
  simp [names, preorders]

theorem names_cons (p : Part) (ps : List Part) : names (p :: ps) = names [p] ++ names ps := by
  simp [names, preorders]

@[simp] theorem names_literal (i : Nat) (h : Head) (ps rest : List Part) :
    names (.literal i h ps :: rest) = names ps ++ names rest := by
  simp [names, preorders, preorder, List.filterMap_cons, wildcardName?]

@[simp] theorem names_wildcard (i : Nat) (h : Head) (rest : List Part) :
    names (.wildcard i h :: rest) = h.text :: names rest := by
  simp [names, preorders, preorder, wildcardName?]

end FormulaMatch.Part

namespace FormulaMatch.Pattern

theorem names_topLevel {p : Pattern} (h : p.topLevel ≠ []) :
    Part.names p.topLevel = p.root.preorder.filterMap Part.wildcardName? := by
  obtain ⟨root, detached⟩ := p
  unfold topLevel at h ⊢
  split
  · cases root with
    | literal i hd ps => simp [Part.names, Part.parts, Part.preorder, List.filterMap_cons, Part.wildcardName?]
    | wildcard i hd => simp_all [Part.parts]
  · simp [Part.names, Part.preorders]

theorem mem_wildcardNames {p : Pattern} (h : p.topLevel ≠ []) {name : String} :
    name ∈ p.wildcardNames ↔ name ∈ Part.names p.topLevel := by
  rw [names_topLevel h, wildcardNames, List.mem_eraseDups]

end FormulaMatch.Pattern
