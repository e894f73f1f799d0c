import FormulaMatch.Formula.Basic

/-! The nodes of a formula, each before its children, and the numbering in that order. -/

namespace FormulaMatch

namespace Formula

variable {ι κ : Type}

mutual

def size : Formula ι → Nat
  | .node _ _ cs => 1 + sizes cs

def sizes : List (Formula ι) → Nat
  | [] => 0
  | c :: cs => c.size + sizes cs

end

mutual

def preorder : Formula ι → List (Formula ι)
  | .node i h cs => .node i h cs :: preorders cs

def preorders : List (Formula ι) → List (Formula ι)
  | [] => []
  | c :: cs => c.preorder ++ preorders cs

end

mutual

/-- The formula with its nodes labelled `n`, `n + 1`, … in the order in which they begin. -/
def numberFrom (n : Nat) : Formula ι → Node
  | .node _ h cs => .node n h (numberAll (n + 1) cs)

def numberAll (n : Nat) : List (Formula ι) → List Node
  | [] => []
  | c :: cs => c.numberFrom n :: numberAll (n + c.size) cs

end

theorem preorders_eq_flatMap (cs : List (Formula ι)) : preorders cs = cs.flatMap preorder := by
  induction cs with
  | nil => rfl
  | cons c cs ih => simp [preorders, ih]

theorem preorder_eq (f : Formula ι) : f.preorder = f :: preorders f.children := by
  cases f
  rfl

theorem mem_preorder_iff {f g : Formula ι} : g ∈ f.preorder ↔ g = f ∨ ∃ c ∈ f.children, g ∈ c.preorder := by
  rw [preorder_eq, preorders_eq_flatMap, List.mem_cons, List.mem_flatMap]

@[simp] theorem length_preorder (f : Formula ι) : f.preorder.length = f.size := by
  induction f using induction with
  | node i h cs ih =>
    have hall : (preorders cs).length = sizes cs := by
      induction cs with
      | nil => rfl
      | cons c cs ihc =>
        rw [preorders, sizes, List.length_append, ih c (by simp),
          ihc fun d hd => ih d (by simp [hd])]
    simp [preorder, size, hall]; omega

@[simp] theorem size_numberFrom (f : Formula ι) (n : Nat) : (f.numberFrom n).size = f.size := by
  induction f using induction generalizing n with
  | node i h cs ih =>
    have hall : ∀ m, sizes (numberAll m cs) = sizes cs := by
      induction cs with
      | nil => intro m; rfl
      | cons c cs ihc =>
        intro m
        rw [numberAll, sizes, sizes, ih c (by simp), ihc fun d hd => ih d (by simp [hd])]
    simp [numberFrom, size, hall]

theorem map_label_preorder_numberFrom (f : Formula ι) (n : Nat) :
    (f.numberFrom n).preorder.map label = List.range' n f.size := by
  induction f using induction generalizing n with
  | node i h cs ih =>
    have hall : ∀ m, (preorders (numberAll m cs)).map label = List.range' m (sizes cs) := by
      induction cs with
      | nil => intro m; rfl
      | cons c cs ihc =>
        intro m
        rw [numberAll, preorders, sizes, List.map_append, ih c (by simp),
          ihc fun d hd => ih d (by simp [hd]), List.range'_append_1]
    rw [numberFrom, preorder, List.map_cons, hall, size, Nat.add_comm 1, List.range'_succ]
    rfl

@[simp] theorem unlabel_numberFrom (f : Formula ι) (n : Nat) : (f.numberFrom n).unlabel = f.unlabel := by
  induction f using induction generalizing n with
  | node i h cs ih =>
    have hall : ∀ m, (numberAll m cs).map unlabel = cs.map unlabel := by
      induction cs with
      | nil => intro m; rfl
      | cons c cs ihc =>
        intro m
        rw [numberAll, List.map_cons, List.map_cons, ih c (by simp),
          ihc fun d hd => ih d (by simp [hd])]
    simp [numberFrom, hall]

end Formula

end FormulaMatch
