import FormulaMatch.Formula.Basic

/-! Two formulas have the same shape when texts and numbers of children agree throughout. Labels,
tags and features play no part in it. -/

namespace FormulaMatch.Formula

variable {ι κ : Type}

mutual

def sameShape : Formula ι → Formula κ → Bool
  | .node _ h cs, .node _ k ds => h.text == k.text && sameShapes cs ds

def sameShapes : List (Formula ι) → List (Formula κ) → Bool
  | [], [] => true
  | c :: cs, d :: ds => c.sameShape d && sameShapes cs ds
  | [], _ :: _ => false
  | _ :: _, [] => false

end

@[simp] theorem sameShapes_nil : sameShapes ([] : List (Formula ι)) ([] : List (Formula κ)) = true :=
  rfl

@[simp] theorem sameShapes_cons (c : Formula ι) (cs : List (Formula ι)) (d : Formula κ)
    (ds : List (Formula κ)) :
    sameShapes (c :: cs) (d :: ds) = (c.sameShape d && sameShapes cs ds) := rfl

theorem sameShape_node (i : ι) (h : Head) (cs : List (Formula ι)) (j : κ) (k : Head)
    (ds : List (Formula κ)) :
    (node i h cs).sameShape (node j k ds) = (h.text == k.text && sameShapes cs ds) := rfl

end FormulaMatch.Formula
