import FormulaMatch.Proofs.Siblings
import FormulaMatch.Session
import Mathlib.Logic.Relation

/-! Repeated braces. Putting a bare group around another, anywhere in a formula and any number of times,
does not change the normal form, and the formula comes from its normal form in this way. So whatever
wrapping leaves alone is kept by the normal form as well. -/

namespace FormulaMatch

namespace Formula

variable {ι : Type} {f g : Formula ι}

/-- In `g` a bare group is put around one bare group of `f`. -/
inductive Wraps : Formula ι → Formula ι → Prop
  | here {f : Formula ι} {i : ι} {h : Head} (group : f.isGroup = true)
      (outer : h.isAnonymous .group = true) : Wraps f (.node i h [f])
  | child {c d : Formula ι} {i : ι} {h : Head} {before after : List (Formula ι)} (wraps : Wraps c d) :
      Wraps (.node i h (before ++ c :: after)) (.node i h (before ++ d :: after))

abbrev Wrapped : Formula ι → Formula ι → Prop := Relation.ReflTransGen Wraps

/-- No bare group in `f` has a bare group as its only child. -/
def IsNormal (f : Formula ι) : Prop :=
  ∀ n ∈ f.preorder, n.isGroup = true → ∀ inner, n.children = [inner] → inner.isGroup = false

/-- The heads of all nodes but the bare groups, in the order in which they begin. -/
def solidHeads (f : Formula ι) : List Head :=
  (f.preorder.filter fun n => !n.isGroup).map head

theorem isGroup_node (i : ι) (h : Head) (cs : List (Formula ι)) :
    (node i h cs).isGroup = h.isAnonymous .group := rfl

theorem unwrap_cases (f : Formula ι) : (∃ inner, f.isGroup = true ∧ f.children = [inner] ∧
      inner.isGroup = true ∧ f.unwrap = inner) ∨
    f.unwrap = f ∧ (f.isGroup = true → ∀ inner, f.children = [inner] → inner.isGroup = false) := by
  unfold unwrap
  split
  · split
    · split
      · exact .inl ⟨_, ‹_›, ‹_›, ‹_›, rfl⟩
      · exact .inr ⟨rfl, by simp_all⟩
    · exact .inr ⟨rfl, by simp_all⟩
  · exact .inr ⟨rfl, by simp_all⟩

theorem unwrap_of_group {i : ι} {h : Head} (outer : h.isAnonymous .group = true)
    (group : f.isGroup = true) : (node i h [f]).unwrap = f := by
  simp [unwrap, isGroup_node, outer, children, group]

theorem isGroup_unwrap (f : Formula ι) : f.unwrap.isGroup = f.isGroup := by
  rcases f.unwrap_cases with ⟨inner, hf, -, hinner, hu⟩ | ⟨hu, -⟩
  · rw [hu, hinner, hf]
  · rw [hu]

theorem isGroup_normalize (f : Formula ι) : f.normalize.isGroup = f.isGroup := by
  cases f
  rw [normalize_node, isGroup_unwrap, isGroup_node, isGroup_node]

theorem Wraps.normalize_eq (h : Wraps f g) : g.normalize = f.normalize := by
  induction h with
  | @here f i h group outer =>
    rw [normalize_node, List.map_singleton,
      unwrap_of_group outer (by rw [isGroup_normalize, group])]
  | child _ ih =>
    rw [normalize_node, normalize_node, List.map_append, List.map_append, List.map_cons,
      List.map_cons, ih]

/-- What one group more does not change, any number of them does not change. -/
theorem Wrapped.keeps {α : Type} {view : Formula ι → α} (hview : ∀ {f g}, Wraps f g → view g = view f)
    (h : Wrapped f g) : view g = view f := by
  induction h with
  | refl => rfl
  | tail _ hstep ih => rw [hview hstep, ih]

theorem Wrapped.normalize_eq (h : Wrapped f g) : g.normalize = f.normalize := h.keeps Wraps.normalize_eq

theorem Wrapped.child {c d : Formula ι} (h : Wrapped c d) (i : ι) (k : Head)
    (before after : List (Formula ι)) :
    Wrapped (node i k (before ++ c :: after)) (node i k (before ++ d :: after)) := by
  induction h with
  | refl => exact .refl
  | tail _ hstep ih => exact ih.tail (.child hstep)

theorem Wrapped.children {r : Formula ι → Formula ι} {cs : List (Formula ι)}
    (h : ∀ c ∈ cs, Wrapped (r c) c) (i : ι) (k : Head) (before : List (Formula ι)) :
    Wrapped (node i k (before ++ cs.map r)) (node i k (before ++ cs)) := by
  -- The induction is on the children still to be wrapped; those before them are done.
  induction cs generalizing before with
  | nil => exact .refl
  | cons c cs ih =>
    obtain ⟨hc, hcs⟩ := List.forall_mem_cons.mp h
    have hrest := ih hcs (before ++ [c])
    rw [List.append_assoc, List.append_assoc] at hrest
    exact (hc.child i k before (cs.map r)).trans hrest

theorem wrapped_unwrap (f : Formula ι) : Wrapped f.unwrap f := by
  rcases f.unwrap_cases with ⟨inner, hf, hchildren, hinner, hu⟩ | ⟨hu, -⟩
  · obtain ⟨i, h, cs⟩ := f
    obtain rfl : cs = [inner] := hchildren
    rw [hu]
    exact .single (.here hinner hf)
  · rw [hu]

theorem wrapped_normalize (f : Formula ι) : Wrapped f.normalize f := by
  induction f using induction with
  | node i h cs ih =>
    rw [normalize_node]
    exact (wrapped_unwrap _).trans (Wrapped.children ih i h [])

theorem normalize_normalize (f : Formula ι) : f.normalize.normalize = f.normalize :=
  f.wrapped_normalize.normalize_eq.symm

theorem isNormal_node {i : ι} {h : Head} {cs : List (Formula ι)} : (node i h cs).IsNormal ↔
    (h.isAnonymous .group = true → ∀ inner, cs = [inner] → inner.isGroup = false) ∧
      ∀ c ∈ cs, c.IsNormal := by
  rw [IsNormal, preorder, preorders_eq_flatMap, List.forall_mem_cons, List.forall_mem_flatMap]
  rfl

/-- A formula that is normal is its own normal form. -/
theorem IsNormal.normalize_eq (h : f.IsNormal) : f.normalize = f := by
  induction f using induction with
  | node i k cs ih =>
    obtain ⟨hself, hcs⟩ := isNormal_node.mp h
    rw [normalize_node, List.map_congr_left fun c hc => ih c hc (hcs c hc), List.map_id']
    rcases (node i k cs).unwrap_cases with ⟨inner, hgroup, hchildren, hinner, -⟩ | ⟨hu, -⟩
    · rw [hself hgroup inner hchildren] at hinner
      cases hinner
    · exact hu

theorem isNormal_normalize (f : Formula ι) : f.normalize.IsNormal := by
  induction f using induction with
  | node i h cs ih =>
    have hall : ∀ c ∈ cs.map normalize, c.IsNormal := List.forall_mem_map.mpr ih
    rw [normalize_node]
    rcases (node i h (cs.map normalize)).unwrap_cases with ⟨inner, -, hchildren, -, hu⟩ | ⟨hu, honly⟩
    · rw [hu]
      exact hall inner (by rw [show cs.map normalize = [inner] from hchildren]; simp)
    · rw [hu]
      exact isNormal_node.mpr ⟨honly, hall⟩

theorem solidHeads_node (i : ι) (h : Head) (cs : List (Formula ι)) : (node i h cs).solidHeads =
    (if h.isAnonymous .group then [] else [h]) ++ cs.flatMap solidHeads := by
  have hrest : ((cs.flatMap preorder).filter fun n => !n.isGroup).map head = cs.flatMap solidHeads := by
    rw [List.filter_flatMap, List.map_flatMap]
    rfl
  rw [solidHeads, preorder, preorders_eq_flatMap, List.filter_cons, isGroup_node, ← hrest]
  cases h.isAnonymous .group <;> rfl

theorem Wraps.solidHeads_eq (h : Wraps f g) : g.solidHeads = f.solidHeads := by
  induction h with
  | here _ outer => simp [solidHeads_node, outer]
  | child _ ih => simp [solidHeads_node, ih]

theorem Wrapped.solidHeads_eq (h : Wrapped f g) : g.solidHeads = f.solidHeads :=
  h.keeps Wraps.solidHeads_eq

end Formula

namespace Session

theorem matchTree_of_wrapped {s : Session} (hs : s.reader = .tex) {e f : Expr} (h : Formula.Wrapped e f)
    (options : Options) : s.matchTree f options = s.matchTree e options := by
  have hnormal : s.reader.normalize f = s.reader.normalize e := by
    rw [hs]
    exact h.normalize_eq
  rw [matchTree, matchTree, hnormal]

end Session

/-- The normal form of a formula is what is left of it when bare groups around bare groups are taken off:
it has none of them, it has the same nodes in the same order but for bare groups, and it stays what it
is when more are put around or when it is formed again. So a session for plain TeX math finds and keeps
the same in both. -/
theorem normal_form_is_transparent (e : Expr) :
    e.normalize.normalize = e.normalize ∧ e.normalize.IsNormal ∧
    e.normalize.solidHeads = e.solidHeads ∧
    (∀ f, Formula.Wrapped e f → f.normalize = e.normalize) ∧
    (∀ f, f.IsNormal → Formula.Wrapped f e → f = e.normalize) ∧ Formula.Wrapped e.normalize e ∧
    ∀ s : Session, s.reader = .tex → ∀ options,
      s.matchTree e options = s.matchTree e.normalize options :=
  ⟨e.normalize_normalize, e.isNormal_normalize, e.wrapped_normalize.solidHeads_eq.symm,
    fun _ hf => hf.normalize_eq, fun _ hn hf => hn.normalize_eq.symm.trans hf.normalize_eq.symm,
    e.wrapped_normalize, fun _ hs options => Session.matchTree_of_wrapped hs e.wrapped_normalize options⟩

/-- The argument of `f` in `f{{{a}}} b`, where the innermost group has a feature, loses the groups around
it, and a pattern with a wildcard for the argument captures the same from either. -/
theorem normal_form_is_transparent_argument :
    let inner : Expr := (Expr.group [.leaf "a"]).withFeature "role" "bound"
    let e : Expr := .sequence [.application "f" [inner], .leaf "b"]
    let f : Expr := .sequence [.application "f" [.group [.group [inner]]], .leaf "b"]
    let pattern : Pattern := ⟨.literal 0 ⟨"", .sequence, .empty⟩ [.literal 1 ⟨"f", .function, .empty⟩
      [.wildcard 2 ⟨"w", .letter, .empty⟩], .literal 3 ⟨"b", .letter, .empty⟩ []], []⟩
    let s : Session := { reader := .tex, pattern }
    Formula.Wrapped e f ∧ f.normalize = e.normalize ∧ e.IsNormal ∧ e = f.normalize ∧ s.reader = .tex ∧
    s.matchTree f .exact = s.matchTree f.normalize .exact ∧
    (s.matchTree f .exact).1 = true ∧ (s.matchTree f .exact).2.captures.get? "w" = some [inner] := by
  intro inner e f pattern s
  have hwrapped : Formula.Wrapped e f := by
    have hwrap : ∀ g : Expr, g.isGroup = true → Formula.Wraps g (Expr.group [g]) := fun _ hg => .here hg rfl
    have hinner : Formula.Wrapped inner (Expr.group [Expr.group [inner]]) :=
      (Relation.ReflTransGen.single (hwrap inner rfl)).tail (hwrap _ rfl)
    exact (hinner.child () ⟨"f", .function, .empty⟩ [] []).child () ⟨"", .sequence, .empty⟩ []
      [Expr.leaf "b"]
  have hnormal : e.IsNormal := e.isNormal_normalize
  obtain ⟨-, -, -, hwrap, -⟩ := normal_form_is_transparent e
  obtain ⟨-, -, -, -, hunique, -, hmatch⟩ := normal_form_is_transparent f
  exact ⟨hwrapped, hwrap f hwrapped, hnormal, hunique e hnormal hwrapped, rfl, hmatch s rfl .exact, rfl,
    rfl⟩

end FormulaMatch
