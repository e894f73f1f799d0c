import FormulaMatch.Formula.Basic

/-! The normal form of a formula, in which no bare group has a bare group as its only child. -/

namespace FormulaMatch.Formula

variable {ι : Type}

/-- The group inside, if `f` is a bare group around one bare group, and `f` otherwise. -/
def unwrap (f : Formula ι) : Formula ι :=
  if f.isGroup then
    match f.children with
    | [inner] => if inner.isGroup then inner else f
    | _ => f
  else f

mutual

def normalize : Formula ι → Formula ι
  | .node i h cs => unwrap (.node i h (normalizes cs))

def normalizes : List (Formula ι) → List (Formula ι)
  | [] => []
  | c :: cs => c.normalize :: normalizes cs

end

theorem normalizes_eq_map (cs : List (Formula ι)) : normalizes cs = cs.map normalize := by
  induction cs with
  | nil => rfl
  | cons c cs ih => simp [normalizes, ih]

theorem normalize_node (i : ι) (h : Head) (cs : List (Formula ι)) :
    (node i h cs).normalize = unwrap (node i h (cs.map normalize)) := by
  rw [normalize, normalizes_eq_map]

end FormulaMatch.Formula
