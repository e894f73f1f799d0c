import FormulaMatch.Proofs.Mirroring
import FormulaMatch.Proofs.Trials

/-! Candidates made of copies. Copied nodes agree in all but their labels, so a trial on them has the
outcome of the trial on the nodes, with copies of the same runs. -/

namespace FormulaMatch

def Copies (n m : Node) : Prop := n.unlabel = m.unlabel

theorem forall₂_copies_iff {ns ms : List Node} :
    List.Forall₂ Copies ns ms ↔ ns.map Formula.unlabel = ms.map Formula.unlabel := by
  rw [← List.forall₂_eq_eq_eq, List.forall₂_map_left_iff, List.forall₂_map_right_iff]
  rfl

theorem mirrors_copies : Mirrors Copies := by
  intro n m h
  obtain ⟨i, hd, cs⟩ := n
  obtain ⟨j, hd', ds⟩ := m
  rw [Copies, Formula.unlabel_node, Formula.unlabel_node, Formula.node.injEq] at h
  obtain ⟨-, rfl, hcs⟩ := h
  exact ⟨rfl, forall₂_copies_iff.mpr hcs⟩

variable {options : Options} {ps : List Part} {queue queue' left : List Node} {C D : Captures}

theorem Captures.Mirrored.snapshot_eq (h : C.Mirrored Copies D) : C.snapshot = D.snapshot := by
  refine NameMap.ext_get? fun name => ?_
  rw [snapshot, snapshot, NameMap.get?_map, NameMap.get?_map]
  have hname := h name
  generalize C.get? name = c at hname ⊢
  generalize D.get? name = d at hname ⊢
  cases hname with
  | none => rfl
  | some hrun => exact congrArg some (forall₂_copies_iff.mp hrun)

theorem matchParts_copies (hq : queue.map Formula.unlabel = queue'.map Formula.unlabel)
    (h : matchParts options ps queue .empty = .matched (left, C)) :
    ∃ left' C', matchParts options ps queue' .empty = .matched (left', C') ∧
      left.map Formula.unlabel = left'.map Formula.unlabel ∧ C.snapshot = C'.snapshot := by
  have hrel : Outcome.Rel (MirroredEnd Copies) (matchParts options ps queue .empty)
      (matchParts options ps queue' .empty) :=
    mirrors_copies.matchParts (forall₂_copies_iff.mpr hq) (mirrored_empty Copies)
  rw [h] at hrel
  generalize ho : matchParts options ps queue' .empty = o at hrel
  cases hrel with
  | matched hend =>
    exact ⟨_, _, rfl, forall₂_copies_iff.mp hend.1, hend.2.snapshot_eq⟩

theorem matchRun_copies (hq : queue.map Formula.unlabel = queue'.map Formula.unlabel)
    (h : matchRun options ps queue = .matched (left, C)) :
    ∃ left' C', matchRun options ps queue' = .matched (left', C') ∧
      left.map Formula.unlabel = left'.map Formula.unlabel ∧ C.snapshot = C'.snapshot := by
  obtain ⟨hparts, hl⟩ := matchRun_eq_matched_iff.mp h
  obtain ⟨left', C', hparts', hleft, hC⟩ := matchParts_copies hq hparts
  have hl' : options.following = true ∨ left' = [] := by
    refine hl.imp_right fun hnil => ?_
    rw [hnil, List.map_nil, eq_comm, List.map_eq_nil_iff] at hleft
    exact hleft
  exact ⟨left', C', matchRun_eq_matched_iff.mpr ⟨hparts', hl'⟩, hleft, hC⟩

theorem isMatch_matchRun_copies (hq : queue.map Formula.unlabel = queue'.map Formula.unlabel) :
    (matchRun options ps queue).isMatch = (matchRun options ps queue').isMatch := by
  rw [Bool.eq_iff_iff, Outcome.isMatch_iff, Outcome.isMatch_iff]
  constructor
  · rintro ⟨⟨left, C⟩, h⟩
    obtain ⟨left', C', h', -⟩ := matchRun_copies hq h
    exact ⟨(left', C'), h'⟩
  · rintro ⟨⟨left, C⟩, h⟩
    obtain ⟨left', C', h', -⟩ := matchRun_copies hq.symm h
    exact ⟨(left', C'), h'⟩

/-- The candidate of these items is matched on exactly its first `length` ones, with these groups. -/
def Pattern.TakesFirst (p : Pattern) (options : Options) (items : List Expr) (length : Nat)
    (groups : Snapshot) : Prop :=
  ∃ C, p.matchWhole (.ofExpr (.sequence items)) options = .matched C ∧
    (Search.new p (.ofExpr (.sequence items)) options).next.hit = some ⟨0, length, C⟩ ∧
    C.snapshot = groups

theorem Pattern.takesFirst_of_matchRun {p : Pattern} (hp : p.topLevel ≠ []) {items : List Expr}
    (hq : queue.map Formula.unlabel = items)
    (h : matchRun options p.topLevel queue = .matched (left, C)) :
    p.TakesFirst options items (queue.length - left.length) C.snapshot := by
  have hitems := Tree.topLevel_ofExpr_sequence items
  obtain ⟨left', C', hrun, hleft, hC⟩ := matchRun_copies (hq.trans hitems.symm) h
  obtain ⟨hwhole, hhit⟩ := first_of_matchRun hp hrun
  have hlen : queue.length = (Tree.ofExpr (.sequence items)).topLevel.length := by
    simpa using congrArg List.length (hq.trans hitems.symm)
  have hlen' : left.length = left'.length := by simpa using congrArg List.length hleft
  rw [← hlen, ← hlen'] at hhit
  exact ⟨C', hwhole, hhit, hC.symm⟩

end FormulaMatch
