import FormulaMatch.Proofs.Explanation
import FormulaMatch.Proofs.Sources
import FormulaMatch.Proofs.Trials
import Mathlib.Data.List.Infix

/-! Patterns without wildcards. Where nothing may be left over they match the nodes of the shape of their
source and no others, and nothing is captured. -/

namespace FormulaMatch

variable {options : Options} {ps : List Part} {queue : List Node} {C : Captures}

namespace Formula

variable {ι κ : Type}

theorem sameShapes_nil_left (gs : List (Formula κ)) :
    sameShapes ([] : List (Formula ι)) gs = gs.isEmpty := by
  cases gs <;> rfl

/-- A row has the shape of another one if its beginning has and nothing comes behind. -/
theorem sameShapes_eq_take (fs : List (Formula ι)) (gs : List (Formula κ)) :
    sameShapes fs gs = (sameShapes fs (gs.take fs.length) && (gs.drop fs.length).isEmpty) := by
  induction fs generalizing gs with
  | nil => simp [sameShapes_nil_left]
  | cons f fs ih =>
    cases gs with
    | nil => simp [sameShapes]
    | cons g gs => simp [ih gs, Bool.and_assoc]

end Formula

theorem Outcome.guard_bind {α β : Type} (test : Bool) (a : α) (f : α → Outcome β) :
    (guard test a).bind f = if test then f a else .unmatched := by
  cases test <;> rfl

theorem matchPart_literal {i : Nat} {h : Head} {n : Node} (hf : options.following = false)
    (hps : matchParts options ps n.children C =
      .guard (Formula.sameShapes (ps.map Part.source) (n.children.take ps.length))
        (n.children.drop ps.length, C)) :
    matchPart options (.literal i h ps) n C =
      .guard ((Part.literal i h ps).source.sameShape n) C := by
  obtain ⟨j, k, ds⟩ := n
  rw [Part.source_literal, Formula.sameShape_node]
  by_cases ht : h.text = k.text
  · by_cases hne : ps = []
    · subst hne
      simp [matchPart, Formula.text, Formula.head, ht, Formula.isLeaf, Formula.children,
        Formula.sameShapes_nil_left]
    · have he : ps.isEmpty = false := by simpa using hne
      rw [Formula.sameShapes_eq_take, List.length_map]
      simp only [Formula.children] at hps
      simp only [matchPart, Formula.text, Formula.head, Formula.children, ht, bne_self_eq_false,
        he, hps, hf, Outcome.guard_bind, Bool.false_or, beq_self_eq_true, Bool.true_and]
      cases Formula.sameShapes (ps.map Part.source) (ds.take ps.length) <;> rfl
  · simp [matchPart, Formula.text, Formula.head, ht, Outcome.guard]

/-- Each literal takes one node, of the shape of its source. -/
theorem matchParts_literals (hf : options.following = false) (hw : Part.names ps = []) :
    matchParts options ps queue C =
      .guard (Formula.sameShapes (ps.map Part.source) (queue.take ps.length))
        (queue.drop ps.length, C) := by
  induction ps using Part.row_induction generalizing queue C with
  | nil => simp [matchParts, Outcome.guard]
  | wildcard i h rest _ _ => simp at hw
  | literal i h ps rest ihps ihrest =>
    rw [Part.names_literal, List.append_eq_nil_iff] at hw
    cases queue with
    | nil => simp [matchParts, Outcome.guard, Formula.sameShapes]
    | cons n queue =>
      rw [matchParts, matchPart_literal hf (ihps hw.1), Outcome.guard_bind, ihrest hw.2]
      rw [List.map_cons, List.length_cons, List.take_succ_cons, List.drop_succ_cons,
        Formula.sameShapes_cons]
      cases (Part.literal i h ps).source.sameShape n <;> rfl

theorem matchRun_literals (hf : options.following = false) (hw : Part.names ps = []) :
    matchRun options ps queue =
      .guard (Formula.sameShapes (ps.map Part.source) queue) ([], .empty) := by
  rw [matchRun, matchParts_literals hf hw, Outcome.guard_bind, Formula.sameShapes_eq_take _ queue,
    List.length_map, hf]
  cases Formula.sameShapes (ps.map Part.source) (queue.take ps.length) with
  | false => rfl
  | true =>
    cases hd : queue.drop ps.length <;> rfl

namespace Pattern

variable {recognises : String → Bool} {source t : Tree} {p : Pattern}

theorem names_root_of_wildcardNames (h : p.wildcardNames = []) : Part.names [p.root] = [] := by
  rw [List.eq_nil_iff_forall_not_mem] at h ⊢
  intro name hn
  rw [Part.names_singleton] at hn
  exact h name (List.mem_eraseDups.mpr hn)

theorem names_topLevel_eq_nil (hp : p.topLevel ≠ []) (h : p.wildcardNames = []) :
    Part.names p.topLevel = [] := by
  rw [names_topLevel hp, ← Part.names_singleton]
  exact names_root_of_wildcardNames h

theorem matchRoot_literal (hp : ofTree recognises source = .ok p) (hw : p.wildcardNames = [])
    (hf : options.following = false) (n : Node) :
    p.matchRoot options n queue = (queue, .guard (source.root.sameShape n) .empty) := by
  have hroot := names_root_of_wildcardNames hw
  have hsource := (ofTree_eq_ok_iff.mp hp).1
  unfold matchRoot
  cases hr : p.root with
  | wildcard i h => simp [hr] at hroot
  | literal i h ps =>
    rw [hr, Part.names_literal, List.append_eq_nil_iff] at hroot
    rw [hr] at hsource
    simp only [matchPart_literal hf (matchParts_literals hf hroot.1), hsource]

/-- Without wildcards a candidate is matched if its top-level sequence, or with leading tokens a part of
this at its end, has the shape of the source. -/
theorem isMatch_literal_iff (hp : ofTree recognises source = .ok p) (hw : p.wildcardNames = [])
    (hf : options.following = false) (hne : p.topLevel ≠ []) :
    (p.matchWhole t options).isMatch = true ↔
      ∃ row, row <:+ t.topLevel ∧ (options.leading = true ∨ row = t.topLevel) ∧
        Formula.sameShapes source.topLevel row = true := by
  have hnames := names_topLevel_eq_nil hne hw
  have hsources := map_source_topLevel (ofTree_eq_ok_iff.mp hp).1
  have hrun : ∀ row, (FormulaMatch.matchRun options p.topLevel row).isMatch = true ↔
      Formula.sameShapes source.topLevel row = true := by
    intro row
    rw [matchRun_literals hf hnames, hsources]
    cases Formula.sameShapes source.topLevel row <;> simp [Outcome.guard, Outcome.isMatch]
  simp only [isMatch_matchWhole_iff hne, hrun]
  constructor
  · rintro ⟨start, hl, hs⟩
    refine ⟨_, List.drop_suffix start _, hl.imp_right ?_, hs⟩
    rintro rfl
    exact List.drop_zero
  · rintro ⟨row, ⟨before, hrow⟩, hl | rfl, hs⟩
    · refine ⟨before.length, .inl hl, ?_⟩
      rw [← hrow, List.drop_left]
      exact hs
    · exact ⟨0, .inr rfl, hs⟩

theorem eq_empty_of_literal (hw : p.wildcardNames = []) (hf : options.following = false)
    (hne : p.topLevel ≠ []) {C : Captures} (h : p.matchWhole t options = .matched C) : C = .empty := by
  obtain ⟨hit, hhit, rfl⟩ := holds_of_matchWhole hne h
  have hrun := hhit.run
  rw [matchParts_literals hf (names_topLevel_eq_nil hne hw), Outcome.guard_eq_matched_iff,
    Prod.mk.injEq] at hrun
  exact hrun.2.2.symm

theorem not_malformed_of_literal (hw : p.wildcardNames = []) (hf : options.following = false)
    {fault : Fault} : p.matchWhole t options ≠ .malformed fault := by
  intro h
  obtain ⟨hne, k, hrun⟩ := exists_faulty_trial h
  rw [matchRun_literals hf (names_topLevel_eq_nil hne hw)] at hrun
  simp at hrun

end Pattern

/-- A pattern without wildcards compares shapes when no tokens may follow. A candidate is never malformed
for it; an empty pattern matches an empty candidate, any other one a candidate of its shape or, if
tokens may lead, one that ends in it; and its root matches the nodes of the root's shape. -/
theorem literal_match_iff_sameShape {recognises : String → Bool} {source : Tree} {p : Pattern}
    (hp : Pattern.ofTree recognises source = .ok p) (hw : p.wildcardNames = []) (options : Options)
    (hf : options.following = false) :
    (∀ t, (∀ fault, p.matchWhole t options ≠ .malformed fault) ∧
      ∀ C, p.matchWhole t options = .matched C ↔ C = .empty ∧
        (source.topLevel = [] ∧ t.topLevel = [] ∨
          source.topLevel ≠ [] ∧ ∃ row, row <:+ t.topLevel ∧
            (options.leading = true ∨ row = t.topLevel) ∧
            Formula.sameShapes source.topLevel row = true)) ∧
    ∀ n queue, p.matchRoot options n queue = (queue, .guard (source.root.sameShape n) .empty) := by
  have hsources := Pattern.map_source_topLevel (Pattern.ofTree_eq_ok_iff.mp hp).1
  refine ⟨fun t => ⟨fun fault => Pattern.not_malformed_of_literal hw hf, fun C => ?_⟩,
    fun n queue => Pattern.matchRoot_literal hp hw hf n⟩
  rw [← hsources, ne_eq, List.map_eq_nil_iff, hsources]
  by_cases hne : p.topLevel = []
  · simp only [Pattern.matchWhole, hne, List.isEmpty_nil, if_true, Outcome.guard_eq_matched_iff,
      List.isEmpty_iff, not_true_eq_false, false_and, or_false, true_and]
    exact ⟨fun ⟨ht, hC⟩ => ⟨hC.symm, ht⟩, fun ⟨hC, ht⟩ => ⟨ht, hC.symm⟩⟩
  · simp only [hne, false_and, false_or, not_false_eq_true, true_and]
    rw [← Pattern.isMatch_literal_iff hp hw hf hne, Outcome.isMatch_iff]
    constructor
    · intro h
      exact ⟨Pattern.eq_empty_of_literal hw hf hne h, C, h⟩
    · rintro ⟨rfl, D, h⟩
      rw [h, Pattern.eq_empty_of_literal hw hf hne h]

/-- The pattern `f(x) y` finds itself at the end of `a f(x) y`, with an operator for a variable, and not
in `f(x) y a`; its root has the shape of a command without text, but not that of `f(x)`. -/
theorem literal_match_iff_sameShape_last :
    let source : Tree := .ofExpr (.sequence [.application "f" [.leaf "x"], .leaf "y"])
    let t : Tree := .ofExpr (.sequence [.leaf "a", .make "f" .operator [.leaf "x"], .leaf "y"])
    let t' : Tree := .ofExpr (.sequence [.application "f" [.leaf "x"], .leaf "y", .leaf "a"])
    let n : Node := (Expr.make "" .command [.application "f" [.leaf "x"], .leaf "y"]).numberFrom 7
    ∃ p, Pattern.ofTree (fun _ => false) source = .ok p ∧ p.wildcardNames = [] ∧
      p.matchWhole t ⟨true, false, false⟩ = .matched .empty ∧
      (∀ C, p.matchWhole t' ⟨true, false, false⟩ ≠ .matched C) ∧
      p.matchRoot .exact n t.topLevel = (t.topLevel, .matched .empty) ∧
      p.matchRoot .exact t.root [n] = ([n], .unmatched) := by
  intro source t t' n
  obtain ⟨p, hp⟩ : ∃ p, Pattern.ofTree (fun _ => false) source = .ok p := ⟨_, rfl⟩
  have hw : p.wildcardNames = [] := by cases hp; rfl
  have hne : source.topLevel ≠ [] := by decide
  have hnone : ∀ row ∈ t'.topLevel.tails, Formula.sameShapes source.topLevel row = false := by decide
  obtain ⟨hwhole, -⟩ := literal_match_iff_sameShape hp hw ⟨true, false, false⟩ rfl
  obtain ⟨-, hroot⟩ := literal_match_iff_sameShape hp hw .exact rfl
  refine ⟨p, hp, hw, ?_, ?_, hroot n t.topLevel, hroot t.root [n]⟩
  · refine ((hwhole t).2 .empty).mpr ⟨rfl, .inr ⟨hne, t.topLevel.drop 1, ?_, .inl rfl, rfl⟩⟩
    exact List.drop_suffix 1 _
  · intro C h
    obtain ⟨-, ⟨he, -⟩ | ⟨-, row, hrow, -, hs⟩⟩ := ((hwhole t').2 C).mp h
    · exact hne he
    · rw [hnone row ((List.mem_tails row t'.topLevel).mpr hrow)] at hs
      cases hs

end FormulaMatch
