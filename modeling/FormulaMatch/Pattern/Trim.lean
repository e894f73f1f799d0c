import FormulaMatch.Pattern.Lookup

/-! Cutting off the first of a part's children. The numbers of all parts stay as they are, and what
was cut off stays a part of the pattern that can no longer be reached. -/

namespace FormulaMatch

namespace Part

mutual

def trim (id : Nat) : Part → Part
  | .literal i h ps => .literal i h (if i = id then ps.drop 1 else trimAll id ps)
  | .wildcard i h => .wildcard i h

def trimAll (id : Nat) : List Part → List Part
  | [] => []
  | p :: ps => p.trim id :: trimAll id ps

end

theorem trimAll_eq_map (id : Nat) (ps : List Part) : trimAll id ps = ps.map (trim id) := by
  induction ps with
  | nil => rfl
  | cons p ps ih => simp [trimAll, ih]

end Part

/-- The number of the first child of part `id`, if there is one, and the pattern without it. -/
def Pattern.trim (p : Pattern) (id : Nat) : Option Nat × Pattern :=
  match (p.part? id).bind fun q => q.parts.head? with
  | some first =>
    (some first.id,
      { root := p.root.trim id, detached := first :: p.detached.map (Part.trim id) })
  | none => (none, p)

end FormulaMatch
