import FormulaMatch.Formula.Basic

/-! The written form of a formula. A bare sequence is its children with spaces between them, a bare
group has braces around that, and any other node writes its text and then, if it has children,
their group. -/

namespace FormulaMatch.Formula

variable {ι : Type}

mutual

def chars : Formula ι → List Char
  | .node _ h cs =>
    if h.isAnonymous .sequence then spaced cs
    else if h.isAnonymous .group then '{' :: (spaced cs ++ ['}'])
    else if cs.isEmpty then h.text.toList
    else h.text.toList ++ '{' :: (spaced cs ++ ['}'])

/-- The written forms of formulas with single spaces between them. -/
def spaced : List (Formula ι) → List Char
  | [] => []
  | c :: cs => c.chars ++ spacedAfter cs

/-- The written forms of formulas with a single space before each. -/
def spacedAfter : List (Formula ι) → List Char
  | [] => []
  | c :: cs => ' ' :: (c.chars ++ spacedAfter cs)

end

def render (f : Formula ι) : String := String.ofList f.chars

def renderAll (fs : List (Formula ι)) : String := String.ofList (spaced fs)

@[simp] theorem toList_render (f : Formula ι) : f.render.toList = f.chars := by simp [render]

@[simp] theorem toList_renderAll (fs : List (Formula ι)) : (renderAll fs).toList = spaced fs := by
  simp [renderAll]

theorem spacedAfter_eq_flatMap (cs : List (Formula ι)) :
    spacedAfter cs = cs.flatMap fun c => ' ' :: c.chars := by
  induction cs with
  | nil => rfl
  | cons c cs ih => simp [spacedAfter, ih]

theorem chars_sequence (cs : List Expr) : (Expr.sequence cs).chars = spaced cs := by
  simp [Expr.sequence, Expr.make, chars, Head.isAnonymous]

theorem chars_group (cs : List Expr) : (Expr.group cs).chars = '{' :: (spaced cs ++ ['}']) := by
  simp [Expr.group, Expr.make, chars, Head.isAnonymous]

theorem spaced_map_unlabel_of_forall {cs : List (Formula ι)}
    (h : ∀ c ∈ cs, c.unlabel.chars = c.chars) : spaced (cs.map unlabel) = spaced cs := by
  have hafter : ∀ ds : List (Formula ι), (∀ d ∈ ds, d.unlabel.chars = d.chars) →
      spacedAfter (ds.map unlabel) = spacedAfter ds := by
    intro ds hds
    induction ds with
    | nil => rfl
    | cons d ds ih =>
      obtain ⟨hd, hds⟩ := List.forall_mem_cons.1 hds
      rw [List.map_cons, spacedAfter, spacedAfter, hd, ih hds]
  cases cs with
  | nil => rfl
  | cons c cs =>
    obtain ⟨hc, hcs⟩ := List.forall_mem_cons.1 h
    rw [List.map_cons, spaced, spaced, hc, hafter cs hcs]

@[simp] theorem chars_unlabel (f : Formula ι) : f.unlabel.chars = f.chars := by
  induction f using induction with
  | node i h cs ih =>
    simp only [unlabel_node, chars, spaced_map_unlabel_of_forall ih, List.isEmpty_map]

@[simp] theorem spaced_map_unlabel (cs : List (Formula ι)) : spaced (cs.map unlabel) = spaced cs :=
  spaced_map_unlabel_of_forall fun c _ => c.chars_unlabel

end FormulaMatch.Formula
