import FormulaMatch.Proofs.Trials

/-! The root of a pattern against the root of a candidate. When no tokens may lead, a search has one
place to try, and what it finds there is what the two roots give. -/

namespace FormulaMatch

variable {options : Options} {ps : List Part} {p : Pattern} {t : Tree}

theorem Outcome.map_guard {α β : Type} (test : Bool) (a : α) (f : α → β) :
    (guard test a).map f = guard test (f a) := by
  cases test <;> rfl

theorem seek_of_not_isMatch {n : Node} {rest : List Node} (hl : options.leading = false)
    (h : (matchRun options ps (n :: rest)).isMatch = false) :
    seek options ps 0 none (n :: rest) = .error (matchRun options ps (n :: rest)).fault? := by
  have hone : ∀ fault, seek options ps 1 fault rest = .error fault := by
    intro fault
    cases rest <;> simp [seek, hl]
  cases hm : matchRun options ps (n :: rest) with
  | matched result => simp [hm, Outcome.isMatch] at h
  | unmatched => simp [seek, hm, hone, Outcome.fault?]
  | malformed fault => simp [seek, hm, hone, Outcome.fault?]

/-- Without tokens before it a match of the whole is the one trial at the start. -/
theorem matchWhole_eq_matchRun (hp : p.topLevel ≠ []) (hl : options.leading = false) :
    p.matchWhole t options = (matchRun options p.topLevel t.topLevel).map Prod.snd := by
  have he : p.topLevel.isEmpty = false := by simpa using hp
  cases hm : matchRun options p.topLevel t.topLevel with
  | matched result => simp [Pattern.matchWhole, he, seek_first hp hm, Outcome.map]
  | _ =>
    cases hq : t.topLevel with
    | nil =>
      rw [hq, matchRun_nil hp] at hm
      simp [Pattern.matchWhole, he, hq, seek, ← hm, Outcome.ofFault?, Outcome.map]
    | cons n rest =>
      have hno : (matchRun options p.topLevel (n :: rest)).isMatch = false := by
        rw [← hq, hm]
        rfl
      rw [Pattern.matchWhole, he, hq, seek_of_not_isMatch hl hno, ← hq, hm]
      rfl

theorem matchPart_eq_matchRun {i : Nat} {h : Head} {n : Node} (hps : ps ≠ []) (ht : h.text = n.text) :
    matchPart options (.literal i h ps) n .empty = (matchRun options ps n.children).map Prod.snd := by
  have he : ps.isEmpty = false := by simpa using hps
  simp only [matchPart, ht, bne_self_eq_false, Bool.false_eq_true, if_false, he, matchRun]
  cases matchParts options ps n.children .empty with
  | matched result => exact (Outcome.map_guard _ result Prod.snd).symm
  | _ => rfl

theorem matchRun_singleton {i : Nat} {h : Head} (n : Node) :
    (matchRun options [.literal i h ps] [n]).map Prod.snd = matchPart options (.literal i h ps) n .empty := by
  rw [matchRun, matchParts_single rfl]
  cases matchPart options (.literal i h ps) n .empty with
  | matched C => simp [Outcome.map, Outcome.guard]
  | _ => rfl

theorem text_eq_empty_of_isAnonymous {h : Head} {tag : Tag} (ha : h.isAnonymous tag = true) :
    h.text = "" := by
  simp only [Head.isAnonymous, Bool.and_eq_true, String.isEmpty_iff] at ha
  exact ha.2

theorem matchRoot_sequence {i : Nat} {h : Head} (hr : p.root = .literal i h ps)
    (hp : h.isAnonymous .sequence = true) (ht : t.root.isSequence = true)
    (hl : options.leading = false) :
    matchPart options (.literal i h ps) t.root .empty = p.matchWhole t options := by
  have htext : h.text = t.root.text := by
    rw [text_eq_empty_of_isAnonymous hp, Formula.text, text_eq_empty_of_isAnonymous ht]
  have htop : p.topLevel = ps := by simp [Pattern.topLevel, hr, Part.head, Part.parts, hp]
  have htree : t.topLevel = t.root.children := by simp [Tree.topLevel, ht]
  by_cases hps : ps = []
  · subst hps
    simp [matchPart, htext, Pattern.matchWhole, htop, htree, Formula.isLeaf]
  · rw [matchPart_eq_matchRun hps htext, matchWhole_eq_matchRun (htop ▸ hps) hl, htop, htree]

theorem matchRoot_single (hp : p.root.head.isAnonymous .sequence = false)
    (ht : t.root.isSequence = false) (hl : options.leading = false) :
    p.matchRoot options t.root [] = ([], p.matchWhole t options) := by
  have htop : p.topLevel = [p.root] := by simp [Pattern.topLevel, hp]
  have htree : t.topLevel = [t.root] := by simp [Tree.topLevel, ht]
  rw [matchWhole_eq_matchRun (by simp [htop]) hl, htop, htree]
  unfold Pattern.matchRoot
  cases hr : p.root with
  | literal i h ps => rw [matchRun_singleton]
  | wildcard i h => cases ha : Captures.assign .empty h.text [t.root] <;>
      simp [matchRun, matchParts, ha, Outcome.map, Outcome.guard]

/-- When no tokens may lead, a candidate is matched as a whole exactly as its root is matched by the
root of the pattern, with the same captures or the same fault, if both roots are bare sequences or
neither is. A wildcard that is recognised in a bare sequence has no parts to compare with. -/
theorem matchRoot_eq_matchWhole (p : Pattern) (t : Tree) (options : Options)
    (hw : p.root.isWildcard = true → p.root.head.isAnonymous .sequence = false)
    (hl : options.leading = false)
    (hs : p.root.head.isAnonymous .sequence = t.root.isSequence) :
    p.matchRoot options t.root [] = ([], p.matchWhole t options) := by
  cases ht : t.root.isSequence with
  | false => exact matchRoot_single (hs.trans ht) ht hl
  | true =>
    rw [ht] at hs
    cases hr : p.root with
    | wildcard i h =>
      rw [hr] at hw hs
      exact absurd hs (by simp [hw rfl])
    | literal i h ps =>
      have hh : h.isAnonymous .sequence = true := by
        rw [hr] at hs
        exact hs
      simp only [Pattern.matchRoot, hr, matchRoot_sequence hr hh ht hl]

/-- The pattern `w = v` finds `( a ] = b` malformed and takes `a b` and `c` from `a b = c`, and a
wildcard alone takes the whole of a candidate that is no sequence. -/
theorem matchRoot_eq_matchWhole_crossed :
    let p : Pattern := ⟨.literal 0 ⟨"", .sequence, .empty⟩ [.wildcard 1 ⟨"w", .letter, .empty⟩,
      .literal 2 ⟨"=", .operator, .empty⟩ [], .wildcard 3 ⟨"v", .letter, .empty⟩], []⟩
    let q : Pattern := ⟨.wildcard 0 ⟨"w", .letter, .empty⟩, []⟩
    let crossed : Tree := .ofExpr (.sequence [.leaf "(", .leaf "a", .leaf "]", .leaf "=", .leaf "b"])
    let t : Tree := .ofExpr (.sequence [.leaf "a", .leaf "b", .leaf "=", .leaf "c"])
    let single : Tree := .ofExpr (.application "f" [.leaf "a"])
    ((p.root.isWildcard = true → p.root.head.isAnonymous .sequence = false) ∧
      (q.root.isWildcard = true → q.root.head.isAnonymous .sequence = false)) ∧
    Options.exact.leading = false ∧
    (p.root.head.isAnonymous .sequence = crossed.root.isSequence ∧
      p.root.head.isAnonymous .sequence = t.root.isSequence ∧
      q.root.head.isAnonymous .sequence = single.root.isSequence) ∧
    p.matchRoot .exact crossed.root [] = ([], .malformed (.crossedBrackets "]" "(")) ∧
    (∃ C, p.matchRoot .exact t.root [] = ([], .matched C) ∧ C.keys = ["v", "w"]) ∧
    ∃ C, q.matchRoot .exact single.root [] = ([], .matched C) ∧ C.keys = ["w"] := by
  intro p q crossed t single
  have hp : p.root.isWildcard = true → p.root.head.isAnonymous .sequence = false := by decide
  have hq : q.root.isWildcard = true → q.root.head.isAnonymous .sequence = false := by decide
  refine ⟨⟨hp, hq⟩, rfl, ⟨rfl, rfl, rfl⟩, ?_, ?_, ?_⟩
  · rw [matchRoot_eq_matchWhole p crossed .exact hp rfl rfl]
    rfl
  · rw [matchRoot_eq_matchWhole p t .exact hp rfl rfl]
    exact ⟨_, rfl, rfl⟩
  · rw [matchRoot_eq_matchWhole q single .exact hq rfl rfl]
    exact ⟨_, rfl, rfl⟩

end FormulaMatch
