import FormulaMatch.Proofs.Agreement
import FormulaMatch.Proofs.Arena

/-! Sameness of shape as an equivalence. Cells, numbered nodes and expressions are compared alike, and it
is equality once tags and features are gone. What a wildcard may capture is settled by the first run
it holds, whatever consistent runs are written over that. -/

namespace FormulaMatch

namespace Formula

variable {ι : Type}

mutual

/-- The expression with one tag throughout and without features. -/
def retag (tag : Tag) : Expr → Expr
  | .node _ h cs => .node () { text := h.text, tag } (retags tag cs)

def retags (tag : Tag) : List Expr → List Expr
  | [] => []
  | c :: cs => c.retag tag :: retags tag cs

end

theorem retags_eq_map (tag : Tag) (cs : List Expr) : retags tag cs = cs.map (retag tag) := by
  induction cs with
  | nil => rfl
  | cons c cs ih => rw [retags, ih, List.map_cons]

theorem bare_retag (tag : Tag) (e : Expr) : (e.retag tag).bare = e.bare := by
  induction e using induction with
  | node i h cs ih => simpa [retag, retags_eq_map] using ih

theorem retag_bare (tag : Tag) (e : Expr) : e.bare.retag tag = e.retag tag := by
  induction e using induction with
  | node i h cs ih => simpa [retag, retags_eq_map] using ih

theorem sameShape_iff_retag (tag : Tag) {e f : Expr} :
    e.sameShape f = true ↔ e.retag tag = f.retag tag := by
  rw [sameShape_iff]
  constructor
  · intro h
    rw [← retag_bare, h, retag_bare]
  · intro h
    rw [← bare_retag tag e, h, bare_retag]

theorem equivalence_sameShape : Equivalence fun f g : Formula ι => f.sameShape g = true where
  refl _ := sameShape_iff.mpr rfl
  symm h := sameShape_iff.mpr (sameShape_iff.mp h).symm
  trans h h' := sameShape_iff.mpr ((sameShape_iff.mp h).trans (sameShape_iff.mp h'))

theorem equivalence_sameShapes :
    Equivalence fun fs gs : List (Formula ι) => sameShapes fs gs = true where
  refl := sameShapes_refl
  symm := sameShapes_symm
  trans := sameShapes_trans

end Formula

namespace Captures

variable {C D : Captures}

/-- The captures after every run in turn was found consistent and written. -/
def assignAll (C : Captures) : List Entry → Outcome Captures
  | [] => .matched C
  | entry :: entries => (C.assign entry.1 entry.2).bind fun D => D.assignAll entries

theorem HeldBy.of_assignAll {entries : List Entry} (h : C.assignAll entries = .matched D) : C.HeldBy D := by
  induction entries generalizing C with
  | nil =>
    cases h
    exact .refl _
  | cons entry entries ih =>
    obtain ⟨E, hassign, hrest⟩ := Outcome.bind_eq_matched_iff.mp h
    exact (HeldBy.of_assign hassign).trans (ih hrest)

theorem isMatch_assign_iff {name : String} {earlier : List Node} (h : C.get? name = some earlier)
    (run : List Node) : (C.assign name run).isMatch = true ↔ Formula.sameShapes earlier run = true := by
  rw [Outcome.isMatch_iff]
  constructor
  · rintro ⟨E, hE⟩
    exact (assign_eq_matched_iff_sameShapes.mp hE).1 earlier h
  · intro hsame
    refine ⟨_, assign_eq_matched_iff_sameShapes.mpr ⟨fun other hother => ?_, rfl⟩⟩
    cases h.symm.trans hother
    exact hsame

/-- A run that is held further on in the same shape is consistent with the same runs. -/
theorem HeldBy.isMatch_assign (h : C.HeldBy D) {name : String} {earlier : List Node}
    (hget : C.get? name = some earlier) (run : List Node) :
    (D.assign name run).isMatch = (C.assign name run).isMatch := by
  obtain ⟨later, hlater, hsame⟩ := h name earlier hget
  rw [Bool.eq_iff_iff, isMatch_assign_iff hget, isMatch_assign_iff hlater]
  constructor
  · exact Formula.sameShapes_trans hsame
  · exact Formula.sameShapes_trans (Formula.sameShapes_symm hsame)

end Captures

/-- The comparison by numbers, that of nodes and that of expressions are one, and it is equality of the
expressions with one tag throughout and no features. It is an equivalence, for rows one by one as
well, so that runs written over a run that they are consistent with are consistent with the same
runs as it was. -/
theorem sameShape_sees_texts_alone :
    (∀ e e' : Expr, ∀ a ∈ (Tree.ofExpr e).nodes, ∀ b ∈ (Tree.ofExpr e').nodes,
      (Arena.ofExpr e).sameShape (Arena.ofExpr e') a.label b.label =
        ((Arena.ofExpr e).expr a.label).sameShape ((Arena.ofExpr e').expr b.label) ∧
      (Arena.ofExpr e).expr a.label = a.unlabel ∧ (Arena.ofExpr e').expr b.label = b.unlabel ∧
      a.sameShape b = a.unlabel.sameShape b.unlabel ∧
      ∀ tag, a.unlabel.sameShape b.unlabel = true ↔ a.unlabel.retag tag = b.unlabel.retag tag) ∧
    Equivalence (fun a b : Node => a.sameShape b = true) ∧
    Equivalence (fun e f : Expr => e.sameShape f = true) ∧
    Equivalence (fun run other : List Node => Formula.sameShapes run other = true) ∧
    ∀ (C D : Captures) (entries : List Captures.Entry), C.assignAll entries = .matched D →
      ∀ name earlier, C.get? name = some earlier → ∀ run,
        (D.assign name run).isMatch = (C.assign name run).isMatch ∧
        ((C.assign name run).isMatch = true ↔ Formula.sameShapes earlier run = true) := by
  refine ⟨fun e e' a ha b hb => ?_, Formula.equivalence_sameShape, Formula.equivalence_sameShape,
    Formula.equivalence_sameShapes, fun C D entries hall name earlier hget run => ?_⟩
  · refine ⟨Arena.sameShape_eq _ _ _ _, Arena.expr_ofExpr ha, Arena.expr_ofExpr hb, ?_,
      fun tag => Formula.sameShape_iff_retag tag⟩
    rw [Bool.eq_iff_iff, Formula.sameShape_iff, Formula.sameShape_iff, Formula.bare_unlabel,
      Formula.bare_unlabel]
  · have hheld : C.HeldBy D := .of_assignAll hall
    exact ⟨hheld.isMatch_assign hget run, Captures.isMatch_assign_iff hget run⟩

/-- The part `f(x)` of a row has the shape of an `f(x)` with other tags and features, and once that has been
written over it a wildcard still accepts an `f(x)` and refuses an `x`. -/
theorem sameShape_sees_texts_alone_overwritten :
    let part : Expr := (Expr.application "f" [.leaf "x"]).withFeature "meaning" "function"
    let e : Expr := .sequence [part]
    let e' : Expr := .application "f" [(Expr.leaf "x").withTag .command]
    let a : Node := part.numberFrom 1
    let b : Node := e'.numberFrom 0
    a ∈ (Tree.ofExpr e).nodes ∧ b ∈ (Tree.ofExpr e').nodes ∧ a.unlabel ≠ b.unlabel ∧
      a.unlabel.retag .letter = b.unlabel.retag .letter ∧
      (Arena.ofExpr e).sameShape (Arena.ofExpr e') 1 0 = true ∧
      ∃ D, Captures.assignAll (NameMap.empty.insert "w" [a]) [("w", [b])] = .matched D ∧
        (D.assign "w" [a]).isMatch = true ∧ (D.assign "w" b.children).isMatch = false := by
  intro part e e' a b
  obtain ⟨hcompare, -, -, -, hcaptures⟩ := sameShape_sees_texts_alone
  have ha : a ∈ (Tree.ofExpr e).nodes := List.mem_cons_of_mem _ List.mem_cons_self
  have hb : b ∈ (Tree.ofExpr e').nodes := List.mem_cons_self
  obtain ⟨hnumbers, hexpr, hexpr', -, hretag⟩ := hcompare e e' a ha b hb
  have hsame : a.unlabel.sameShape b.unlabel = true := by rfl
  have hfirst : (NameMap.empty.insert "w" [a]).get? "w" = some [a] := NameMap.get?_insert_self _ _ _
  obtain ⟨D, hD⟩ : ∃ D, Captures.assignAll (NameMap.empty.insert "w" [a]) [("w", [b])] = .matched D :=
    ⟨_, rfl⟩
  have hlater := hcaptures _ D _ hD "w" [a] hfirst
  refine ⟨ha, hb, by decide, (hretag .letter).mp hsame, ?_, D, hD, ?_, ?_⟩
  · rw [hexpr, hexpr', hsame] at hnumbers
    exact hnumbers
  · rw [(hlater [a]).1]
    exact (hlater [a]).2.mpr rfl
  · rw [(hlater b.children).1]
    rfl

end FormulaMatch
