import FormulaMatch.Proofs.Taking

/-! The wording of parts: their texts, and which part stands where. A match depends on nothing else, so it
cannot tell parts from each other that differ in numbers, tags and features alone. -/

namespace FormulaMatch

namespace Part

mutual

/-- The part with its texts alone. -/
def bare : Part → Part
  | .literal _ h ps => .literal 0 { text := h.text, tag := .sequence } (bares ps)
  | .wildcard _ h => .wildcard 0 { text := h.text, tag := .sequence }

def bares : List Part → List Part
  | [] => []
  | p :: ps => p.bare :: bares ps

end

theorem bares_eq_map (ps : List Part) : bares ps = ps.map bare := by
  induction ps with
  | nil => rfl
  | cons p ps ih => simp [bares, ih]

@[simp] theorem bare_literal (i : Nat) (h : Head) (ps : List Part) :
    (literal i h ps).bare = .literal 0 { text := h.text, tag := .sequence } (ps.map bare) := by
  rw [bare, bares_eq_map]

@[simp] theorem bare_wildcard (i : Nat) (h : Head) :
    (wildcard i h).bare = .wildcard 0 { text := h.text, tag := .sequence } := by
  rw [bare]

@[simp] theorem isWildcard_bare (p : Part) : p.bare.isWildcard = p.isWildcard := by
  cases p <;> simp [isWildcard]

@[simp] theorem parts_bare (p : Part) : p.bare.parts = p.parts.map bare := by
  cases p <;> simp [parts]

theorem names_map_bare (ps : List Part) : names (ps.map bare) = names ps := by
  induction ps using row_induction with
  | nil => rfl
  | literal i h ps rest ihps ihrest => simp [ihps, ihrest]
  | wildcard i h rest ihrest _ => simp [ihrest]

end Part

variable {options : Options} {ps qs : List Part} {p q : Part} {queue : List Node} {C : Captures}

theorem matchPart_bare_of_single {n : Node}
    (h : matchParts options [p.bare] [n] C = matchParts options [p] [n] C) :
    matchPart options p.bare n C = matchPart options p n C := by
  cases p with
  | wildcard i hd => simp only [Part.bare_wildcard, matchPart]
  | literal i hd ps =>
    rw [matchParts_single (by simp [Part.isWildcard]), matchParts_single rfl] at h
    cases ho : matchPart options (Part.literal i hd ps).bare n C <;>
      cases ho' : matchPart options (.literal i hd ps) n C <;> simp_all [Outcome.map]

theorem matchParts_map_bare :
    matchParts options (ps.map Part.bare) queue C = matchParts options ps queue C := by
  induction ps using Part.row_induction generalizing queue C with
  | nil => simp only [List.map_nil, matchParts]
  | literal i h ps rest ihps ihrest =>
    cases queue with
    | nil => simp only [List.map_cons, matchParts]
    | cons n queue =>
      simp only [List.map_cons, Part.bare_literal, matchParts, matchPart, ihps, ihrest,
        List.isEmpty_map]
  | wildcard i h rest ihrest ihpart =>
    cases queue with
    | nil => cases rest <;> simp only [List.map_cons, List.map_nil, Part.bare_wildcard, matchParts]
    | cons n queue =>
      cases rest with
      | nil => simp only [List.map_cons, List.map_nil, Part.bare_wildcard, matchParts]
      | cons next rest =>
        have hnext : ∀ m, matchPart options next.bare m C = matchPart options next m C := fun m =>
          matchPart_bare_of_single (ihpart next List.mem_cons_self)
        simp only [List.map_cons, Part.bare_wildcard, matchParts, hnext]
        rw [List.map_cons] at ihrest
        simp only [ihrest]

theorem matchParts_congr_bare (h : ps.map Part.bare = qs.map Part.bare) :
    matchParts options ps queue C = matchParts options qs queue C := by
  rw [← matchParts_map_bare, h, matchParts_map_bare]

theorem matchPart_bare (p : Part) (n : Node) :
    matchPart options p.bare n C = matchPart options p n C := by
  refine matchPart_bare_of_single ?_
  rw [← List.map_singleton, matchParts_map_bare]

theorem matchPart_congr_bare (h : p.bare = q.bare) (n : Node) :
    matchPart options p n C = matchPart options q n C := by
  rw [← matchPart_bare, h, matchPart_bare]

/-- Patterns with the same texts throughout, which agree on whether the root is a bare sequence. -/
structure Pattern.SameWording (p q : Pattern) : Prop where
  bare : p.root.bare = q.root.bare
  sequence : p.root.head.isAnonymous .sequence = q.root.head.isAnonymous .sequence

namespace Pattern.SameWording

variable {p q : Pattern}

theorem topLevel (h : p.SameWording q) : p.topLevel.map Part.bare = q.topLevel.map Part.bare := by
  have hparts : p.root.parts.map Part.bare = q.root.parts.map Part.bare := by
    rw [← Part.parts_bare, ← Part.parts_bare, h.bare]
  unfold Pattern.topLevel
  rw [h.sequence]
  split
  · exact hparts
  · rw [List.map_singleton, List.map_singleton, h.bare]

theorem wildcardNames (h : p.SameWording q) : p.wildcardNames = q.wildcardNames := by
  have hnames : Part.names [p.root] = Part.names [q.root] := by
    rw [← Part.names_map_bare, ← Part.names_map_bare [q.root], List.map_singleton,
      List.map_singleton, h.bare]
  rw [Pattern.wildcardNames, Pattern.wildcardNames, ← Part.names_singleton, ← Part.names_singleton,
    hnames]

theorem matchRoot (h : p.SameWording q) (n : Node) :
    p.matchRoot options n queue = q.matchRoot options n queue := by
  have hpart : matchPart options p.root n .empty = matchPart options q.root n .empty :=
    matchPart_congr_bare h.bare n
  have hbare := h.bare
  unfold Pattern.matchRoot
  cases hp : p.root <;> cases hq : q.root <;> rw [hp, hq] at hbare hpart
  · simp only [hpart]
  · simp at hbare
  · simp at hbare
  · simp only [Part.bare_wildcard, Part.wildcard.injEq, Head.mk.injEq, true_and, and_true] at hbare
    simp only [hbare]

end Pattern.SameWording

end FormulaMatch
