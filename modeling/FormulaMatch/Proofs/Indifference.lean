import FormulaMatch.Proofs.Counterparts
import FormulaMatch.Proofs.Sources
import FormulaMatch.Proofs.Tandem

/-! What a match cannot see. Tags and features play no part in it, on either side, nor does the node in
which a candidate's sequence is wrapped: what is left is shape, and nodes are captured by their places. -/

namespace FormulaMatch

/-- Candidates whose top-level sequences have one shape have outcomes of one kind, with the same faults
and with corresponding nodes captured under the same names, and any steps and restarts find runs
at the same places in both. Nothing changes either when the source of the pattern is replaced by
one of the same shape that is wrapped in the same way. -/
theorem match_sees_shapes_alone (options : Options) :
    (∀ t t' : Tree, Formula.sameShapes t.topLevel t'.topLevel = true →
      (∀ n ∈ Formula.preorders t.topLevel, ∃! m, Counterparts t.topLevel t'.topLevel n m) ∧
      ∀ p : Pattern,
        Outcome.Rel (Captures.Mirrored (Counterparts t.topLevel t'.topLevel))
          (p.matchWhole t options) (p.matchWhole t' options) ∧
        ∀ moves, Search.Mirrored (Counterparts t.topLevel t'.topLevel)
          ((Search.new p t options).run moves) ((Search.new p t' options).run moves)) ∧
    ∀ (recognises : String → Bool) (source source' : Tree) (p : Pattern),
      Pattern.ofTree recognises source = .ok p → source.root.sameShape source'.root = true →
      source.root.isSequence = source'.root.isSequence →
      ∃ q, Pattern.ofTree recognises source' = .ok q ∧ p.wildcardNames = q.wildcardNames ∧
        ∀ t, p.matchWhole t options = q.matchWhole t options ∧
          ∀ moves, ((Search.new p t options).run moves).Agrees ((Search.new q t options).run moves) := by
  constructor
  · intro t t' ht
    have hbare := Formula.sameShapes_iff.mp ht
    have hR := mirrors_counterparts hbare
    have hrow := forall₂_counterparts hbare
    refine ⟨fun n hn => existsUnique_counterpart t.nodup_preorders_topLevel hbare hn, fun p => ⟨?_, ?_⟩⟩
    · exact hR.matchWhole rfl hrow
    · intro moves
      have hnew : Search.Mirrored (Counterparts t.topLevel t'.topLevel) (.new p t options)
          (.new p t' options) := .new rfl hrow
      exact hnew.run hR moves
  · intro recognises source source' p hp hs hwrap
    obtain ⟨hsource, hlawful, -⟩ := Pattern.ofTree_eq_ok_iff.mp hp
    rw [← hsource] at hs hwrap
    obtain ⟨q, hq, hsame⟩ := Pattern.exists_ofTree hlawful (Formula.sameShape_iff.mp hs) hwrap
    exact ⟨q, hq, hsame.wildcardNames, fun t => ⟨hsame.matchWhole, hsame.run⟩⟩

/-- The pattern `f(w x)` in `f(a x)`, once in a sequence and once alone, with other tags and with a
feature, and the same pattern from a source that is tagged in another way. -/
theorem match_sees_shapes_alone_wrapped :
    let source : Tree := .ofExpr (.application "f" [.leaf "w", .leaf "x"])
    let source' : Tree := .ofExpr (.make "f" .command [.make "w" .operator [], .leaf "x"])
    let t : Tree := .ofExpr (.sequence [.application "f" [.leaf "a", .leaf "x"]])
    let t' : Tree := .ofExpr (.make "f" .operator
      [(Expr.leaf "a").withFeature "font" "bold", .make "x" .digit []])
    Formula.sameShapes t.topLevel t'.topLevel = true ∧ source.root.sameShape source'.root = true ∧
    ∃ p q C C', Pattern.ofTree (· == "w") source = .ok p ∧ Pattern.ofTree (· == "w") source' = .ok q ∧
      p.matchWhole t .exact = .matched C ∧ p.matchWhole t' .exact = .matched C' ∧
      (C.get? "w").map (List.map Formula.label) = some [2] ∧
      (C'.get? "w").map (List.map Formula.label) = some [1] ∧
      C.Mirrored (Counterparts t.topLevel t'.topLevel) C' ∧ q.matchWhole t .exact = .matched C ∧
      Search.Mirrored (Counterparts t.topLevel t'.topLevel)
        ((Search.new p t .exact).run [.next, .next, .restart, .next])
        ((Search.new p t' .exact).run [.next, .next, .restart, .next]) ∧
      ((Search.new p t .exact).run [.next]).Agrees ((Search.new q t .exact).run [.next]) := by
  intro source source' t t'
  have ht : Formula.sameShapes t.topLevel t'.topLevel = true := rfl
  have hs : source.root.sameShape source'.root = true := rfl
  obtain ⟨hcandidates, hsources⟩ := match_sees_shapes_alone .exact
  obtain ⟨p, hp⟩ : ∃ p, Pattern.ofTree (· == "w") source = .ok p := ⟨_, rfl⟩
  obtain ⟨q, hq, -, hsame⟩ := hsources _ source source' p hp hs rfl
  obtain ⟨hrel, hruns⟩ := (hcandidates t t' ht).2 p
  cases hp
  refine ⟨ht, hs, _, q, _, _, rfl, hq, rfl, rfl, rfl, rfl, ?_, (hsame t).1.symm, hruns _, (hsame t).2 _⟩
  cases hrel
  assumption

end FormulaMatch
