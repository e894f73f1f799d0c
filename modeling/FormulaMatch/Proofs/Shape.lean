import FormulaMatch.Formula.Shape

/-! Sameness of shape as equality. A formula stripped of labels, tags and features keeps what shapes
depend on, so sameness of shape is an equivalence that goes through lists one by one. -/

namespace FormulaMatch.Formula

variable {ι κ μ : Type}

mutual

/-- The formula with its texts alone. -/
def bare : Formula ι → Expr
  | .node _ h cs => .node () { text := h.text, tag := .sequence } (bares cs)

def bares : List (Formula ι) → List Expr
  | [] => []
  | c :: cs => c.bare :: bares cs

end

theorem bares_eq_map (cs : List (Formula ι)) : bares cs = cs.map bare := by
  induction cs with
  | nil => rfl
  | cons c cs ih => simp [bares, ih]

@[simp] theorem bare_node (i : ι) (h : Head) (cs : List (Formula ι)) :
    (node i h cs).bare = .node () { text := h.text, tag := .sequence } (cs.map bare) := by
  rw [bare, bares_eq_map]

@[simp] theorem text_bare (f : Formula ι) : f.bare.text = f.text := by
  cases f; simp [text, head]

@[simp] theorem children_bare (f : Formula ι) : f.bare.children = f.children.map bare := by
  cases f; simp [children]

@[simp] theorem bare_unlabel (f : Formula ι) : f.unlabel.bare = f.bare := by
  induction f using induction with
  | node i h cs ih => simpa using ih

@[simp] theorem isLeaf_bare (f : Formula ι) : f.bare.isLeaf = f.isLeaf := by simp [isLeaf]

theorem sameShapes_iff_of_forall {cs : List (Formula ι)} {ds : List (Formula κ)}
    (h : ∀ c ∈ cs, ∀ d : Formula κ, c.sameShape d = true ↔ c.bare = d.bare) :
    sameShapes cs ds = true ↔ cs.map bare = ds.map bare := by
  induction cs generalizing ds with
  | nil => cases ds <;> simp [sameShapes]
  | cons c cs ih =>
    cases ds with
    | nil => simp [sameShapes]
    | cons d ds => simp [h c (by simp) d, ih fun e he => h e (by simp [he])]

theorem sameShape_iff {f : Formula ι} {g : Formula κ} :
    f.sameShape g = true ↔ f.bare = g.bare := by
  induction f using induction generalizing g with
  | node i h cs ih =>
    obtain ⟨j, k, ds⟩ := g
    have hall : sameShapes cs ds = true ↔ cs.map bare = ds.map bare :=
      sameShapes_iff_of_forall fun c hc _ => ih c hc
    simp [sameShape_node, hall]

theorem sameShapes_iff {fs : List (Formula ι)} {gs : List (Formula κ)} :
    sameShapes fs gs = true ↔ fs.map bare = gs.map bare :=
  sameShapes_iff_of_forall fun _ _ _ => sameShape_iff

theorem map_bare_of_unlabel {fs gs : List (Formula ι)} (h : fs.map unlabel = gs.map unlabel) :
    fs.map bare = gs.map bare := by
  have hall := congrArg (List.map bare) h
  simpa [Function.comp_def] using hall

theorem map_text_of_bare {fs : List (Formula ι)} {gs : List (Formula κ)}
    (h : fs.map bare = gs.map bare) : fs.map text = gs.map text := by
  simpa [Function.comp_def] using congrArg (List.map text) h

@[simp] theorem sameShapes_refl (fs : List (Formula ι)) : sameShapes fs fs = true :=
  sameShapes_iff.mpr rfl

theorem sameShapes_symm {fs : List (Formula ι)} {gs : List (Formula κ)}
    (h : sameShapes fs gs = true) : sameShapes gs fs = true :=
  sameShapes_iff.mpr (sameShapes_iff.mp h).symm

theorem sameShapes_trans {fs : List (Formula ι)} {gs : List (Formula κ)} {hs : List (Formula μ)}
    (h : sameShapes fs gs = true) (h' : sameShapes gs hs = true) : sameShapes fs hs = true :=
  sameShapes_iff.mpr ((sameShapes_iff.mp h).trans (sameShapes_iff.mp h'))

end FormulaMatch.Formula
