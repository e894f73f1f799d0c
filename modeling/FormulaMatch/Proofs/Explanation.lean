import FormulaMatch.Proofs.Faulting

/-! Faults that are reported. Each has its reason in the candidate, where a closing bracket behind a row
of siblings closes nothing, or in the pattern, where a wildcard occurs twice. -/

namespace FormulaMatch

variable {options : Options} {ps : List Part} {queue : List Node} {p : Pattern} {t : Tree} {s : Search}
  {fault : Fault}

/-- What is true of the candidate, or of the pattern, when the fault is reported. -/
inductive Pattern.Explains (p : Pattern) (t : Tree) (options : Options) : Fault → Prop
  | bracket {run n pending bracket fault} (enforced : options.ignoreBrackets = false)
      (nodes : ∀ m ∈ run ++ [n], m ∈ t.nodes) (siblings : t.Siblings (run ++ [n]))
      (tracked : Pending.feedAll [] (run.map Formula.text) = .matched pending)
      (found : Bracket.ofText? n.text = some bracket) (closing : bracket.side = .closing)
      (refused : pending.Refuses bracket n.text fault) : Explains p t options fault
  | conflict {name} (twice : 2 ≤ (p.root.preorder.filterMap Part.wildcardName?).count name) :
      Explains p t options (.conflictingCapture name)

theorem Pattern.Explains.inPattern_eq_false (h : p.Explains t options fault) :
    fault.inPattern = false := by
  cases h with
  | bracket _ _ _ _ _ _ refused => cases refused <;> rfl
  | conflict => rfl

/-- Brackets are not looked at when they are ignored, so only a name that occurs twice is left. -/
theorem Pattern.Explains.not_nodup (h : p.Explains t options fault)
    (hb : options.ignoreBrackets = true) :
    ¬ (p.root.preorder.filterMap Part.wildcardName?).Nodup := by
  cases h with
  | bracket enforced => simp [hb] at enforced
  | @conflict name twice =>
    intro hnodup
    have hle := List.nodup_iff_count_le_one.mp hnodup name
    omega

theorem matchRun_eq_malformed_iff :
    matchRun options ps queue = .malformed fault ↔
      matchParts options ps queue .empty = .malformed fault := by
  simp [matchRun, Outcome.bind_eq_malformed_iff]

theorem Faults.explains (hp : p.topLevel ≠ []) (hq : queue <:+: t.topLevel)
    (hf : Faults options p.topLevel queue .empty fault) : p.Explains t options fault := by
  rcases hf.cases_row with ⟨name, rfl⟩ | ⟨run, n, hrow, hb, pending, htracked, hfeed⟩
  · rcases hf.twice with htwice | ⟨-, s, hs⟩
    · rw [Pattern.names_topLevel hp] at htwice
      exact .conflict htwice
    · cases hs
  · obtain ⟨bracket, hfound, hclosing, hrefused⟩ := Pending.feed_eq_malformed hfeed
    have hnodes : ∀ m ∈ run ++ [n], m ∈ t.nodes := by
      intro m hm
      obtain ⟨top, htop, hin⟩ := hrow.exists_mem hm
      exact Tree.mem_nodes_of_topLevel (hq.subset htop) hin
    exact .bracket hb hnodes (hrow.siblings hq) htracked hfound hclosing hrefused

/-- The fault that a search ends with was there before or is that of one of its trials. -/
theorem seek_fault {start : Nat} {earlier : Option Fault}
    (h : seek options ps start earlier queue = .error (some fault)) :
    earlier = some fault ∨ ∃ k, matchRun options ps (queue.drop k) = .malformed fault := by
  induction queue generalizing start earlier with
  | nil =>
    simp only [seek, Except.error.injEq] at h
    exact .inl h
  | cons n rest ih =>
    rw [seek] at h
    split at h
    · simp only [Except.error.injEq] at h
      exact .inl h
    · split at h
      · cases h
      · rcases ih h with h | ⟨k, h⟩
        · rw [Option.or_eq_some_iff] at h
          rcases h with h | ⟨-, h⟩
          · exact .inl h
          · refine .inr ⟨0, ?_⟩
            cases ho : matchRun options ps (n :: rest) <;> simp_all [Outcome.fault?]
        · exact .inr ⟨k + 1, h⟩

theorem Search.Reached.exists_faulty_trial (h : Reached p t options s) (hs : s.fault = some fault) :
    p.topLevel ≠ [] ∧
      ∃ k, matchRun options p.topLevel (t.topLevel.drop k) = .malformed fault := by
  cases h with
  | new => cases hs
  | restart _ => cases hs
  | @next s h =>
    obtain ⟨rfl, rfl, hseq⟩ := h.unchanged
    unfold Search.next at hs
    split at hs
    · cases hs
    · rename_i hne
      split at hs
      · cases hs
      · rename_i hseek
        simp only at hs
        subst hs
        rcases seek_fault hseek with h | ⟨k, hrun⟩
        · cases h
        · rw [hseq, List.drop_drop] at hrun
          exact ⟨by simpa using hne, _, hrun⟩

theorem Pattern.exists_faulty_trial (h : p.matchWhole t options = .malformed fault) :
    p.topLevel ≠ [] ∧
      ∃ k, matchRun options p.topLevel (t.topLevel.drop k) = .malformed fault := by
  unfold matchWhole at h
  split at h
  · simp at h
  · rename_i hne
    split at h
    · cases h
    · rename_i earlier hseek
      cases earlier with
      | none => cases h
      | some earlier =>
        obtain rfl : earlier = fault := by simpa [Outcome.ofFault?] using h
        rcases seek_fault hseek with h | hrun
        · cases h
        · exact ⟨by simpa using hne, hrun⟩

theorem Pattern.explains_of_trial (h : p.topLevel ≠ [] ∧
    ∃ k, matchRun options p.topLevel (t.topLevel.drop k) = .malformed fault) :
    p.Explains t options fault := by
  obtain ⟨hp, k, hrun⟩ := h
  have hf := faults_of_matchParts (matchRun_eq_malformed_iff.mp hrun)
  exact hf.explains hp (List.drop_suffix k _).isInfix

/-- Whatever fault is reported of a candidate that is matched as a whole, or by a search after any
steps and restarts, has its reason. So a pattern that names each wildcard once finds no candidate
malformed when brackets are ignored. -/
theorem malformed_is_explained (p : Pattern) (t : Tree) (options : Options) :
    (∀ fault, p.matchWhole t options = .malformed fault →
      fault.inPattern = false ∧ p.Explains t options fault) ∧
    (∀ s fault, Search.Reached p t options s → s.fault = some fault →
      fault.inPattern = false ∧ p.Explains t options fault) ∧
    ((p.root.preorder.filterMap Part.wildcardName?).Nodup → options.ignoreBrackets = true →
      (∀ fault, p.matchWhole t options ≠ .malformed fault) ∧
      ∀ s, Search.Reached p t options s → s.fault = none) := by
  refine ⟨fun fault h => ?_, fun s fault hs h => ?_, fun hnodup hb => ⟨fun fault h => ?_, fun s hs => ?_⟩⟩
  · have he := Pattern.explains_of_trial (Pattern.exists_faulty_trial h)
    exact ⟨he.inPattern_eq_false, he⟩
  · have he := Pattern.explains_of_trial (hs.exists_faulty_trial h)
    exact ⟨he.inPattern_eq_false, he⟩
  · have he := Pattern.explains_of_trial (Pattern.exists_faulty_trial h)
    exact he.not_nodup hb hnodup
  · by_contra hne
    obtain ⟨fault, h⟩ := Option.ne_none_iff_exists'.mp hne
    exact (Pattern.explains_of_trial (hs.exists_faulty_trial h)).not_nodup hb hnodup

/-- The pattern `w = f(v x)` in `( | a ] = f(b x)`: the bar is discarded and the parenthesis waits. -/
theorem malformed_is_explained_crossed :
    let p : Pattern := ⟨.literal 0 ⟨"", .sequence, .empty⟩ [.wildcard 1 ⟨"w", .letter, .empty⟩,
      .literal 2 ⟨"=", .operator, .empty⟩ [], .literal 3 ⟨"f", .function, .empty⟩
        [.wildcard 4 ⟨"v", .letter, .empty⟩, .literal 5 ⟨"x", .letter, .empty⟩ []]], []⟩
    let t : Tree := .ofExpr (.sequence [.leaf "(", .leaf "|", .leaf "a", .leaf "]", .leaf "=",
      .application "f" [.leaf "b", .leaf "x"]])
    let ignoring : Options := ⟨true, true, true⟩
    (p.matchWhole t .exact = .malformed (.crossedBrackets "]" "(") ∧
      p.Explains t .exact (.crossedBrackets "]" "(")) ∧
    ((Search.new p t .lenient).next.fault = some (.crossedBrackets "]" "(") ∧
      p.Explains t .lenient (.crossedBrackets "]" "(")) ∧
    (p.root.preorder.filterMap Part.wildcardName?).Nodup ∧
    (∀ fault, p.matchWhole t ignoring ≠ .malformed fault) ∧
    (Search.new p t ignoring).next.fault = none := by
  intro p t ignoring
  have hwhole : p.matchWhole t .exact = .malformed (.crossedBrackets "]" "(") := rfl
  have hsearch : (Search.new p t .lenient).next.fault = some (.crossedBrackets "]" "(") := rfl
  have hnodup : (p.root.preorder.filterMap Part.wildcardName?).Nodup := by decide
  have hexact := (malformed_is_explained p t .exact).1 _ hwhole
  have hlenient := (malformed_is_explained p t .lenient).2.1 _ _ (.next .new) hsearch
  obtain ⟨hnever, hnone⟩ := (malformed_is_explained p t ignoring).2.2 hnodup rfl
  exact ⟨⟨hwhole, hexact.2⟩, ⟨hsearch, hlenient.2⟩, hnodup, hnever, hnone _ (.next .new)⟩

end FormulaMatch
