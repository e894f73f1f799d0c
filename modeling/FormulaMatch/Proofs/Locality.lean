import FormulaMatch.Proofs.Copies
import FormulaMatch.Proofs.Tolerance

/-! No step of a successful match looks at nodes after its end. A pattern matches copies of the nodes
that it has used up, alone and, unless it ends in a wildcard, with anything after them. -/

namespace FormulaMatch

open Captures (Entry)

variable {options : Options} {p : Part} {ps rest : List Part} {queue beyond : List Node}
  {C D : Captures} {taken : List Entry}

theorem Takes.ne_nil (h : Takes options (p :: rest) queue C taken beyond D) : queue ≠ [] := by
  cases h <;> simp

/-- The nodes that are left over can be taken away. -/
theorem Takes.trim (h : Takes options ps queue C taken beyond D) :
    ∃ used, queue = used ++ beyond ∧ Takes options ps used C taken [] D := by
  induction h with
  | nil _ C => exact ⟨[], rfl, .nil [] C⟩
  | leaf text leaf _ ih =>
    obtain ⟨used, rfl, ht⟩ := ih
    exact ⟨_ :: used, rfl, .leaf text leaf ht⟩
  | branch text parts children extra_ok _ _ ih =>
    obtain ⟨used, rfl, ht⟩ := ih
    exact ⟨_ :: used, rfl, .branch text parts children extra_ok ht⟩
  | last assigned => exact ⟨_, (List.append_nil _).symm, .last assigned⟩
  | @stop _ _ _ _ n before m _ _ _ _ _ _ _ _ _ start opened passes stops looked assigned _ _ ih =>
    obtain ⟨used, hused, ht⟩ := ih
    -- The node at which the wildcard stops is used by the part that stops it.
    obtain ⟨m', left, rfl⟩ := List.exists_cons_of_ne_nil ht.ne_nil
    obtain ⟨rfl, rfl⟩ := List.cons.inj hused
    exact ⟨n :: (before ++ m :: left), by simp,
      .stop start opened passes stops looked assigned ht⟩

theorem not_isWildcard_of_getLast? (h : ∀ q ∈ (p :: rest).getLast?, q.isWildcard = false) :
    ∀ q ∈ rest.getLast?, q.isWildcard = false := by
  cases rest with
  | nil => simp
  | cons q rest => rwa [List.getLast?_cons_cons] at h

/-- Parts that do not end in a wildcard leave over whatever comes after. -/
theorem Takes.extend (h : Takes options ps queue C taken beyond D)
    (hl : ∀ q ∈ ps.getLast?, q.isWildcard = false) (more : List Node) :
    Takes options ps (queue ++ more) C taken (beyond ++ more) D := by
  induction h with
  | nil => exact .nil _ _
  | leaf text leaf _ ih => exact .leaf text leaf (ih (not_isWildcard_of_getLast? hl))
  | branch text parts children extra_ok _ _ ih =>
    exact .branch text parts children extra_ok (ih (not_isWildcard_of_getLast? hl))
  | last => simp [Part.isWildcard] at hl
  | stop start opened passes stops looked assigned _ _ ih =>
    have ht := ih (not_isWildcard_of_getLast? hl)
    rw [List.cons_append] at ht
    rw [List.cons_append, List.append_assoc, List.cons_append]
    exact .stop start opened passes stops looked assigned ht

/-- What a search has found does not depend on the nodes before and after it: copies of the nodes
of a hit are matched again from the first to the last with the same groups, and if tokens may
follow and the pattern does not end in a wildcard, so are the same copies before anything else. -/
theorem match_is_local (p : Pattern) (t : Tree) (options : Options) :
    ∀ s hit, Search.Reached p t options s → s.hit = some hit →
      s.hitNodes.length = hit.stop - hit.start ∧
      p.TakesFirst options (s.hitNodes.map Formula.unlabel) s.hitNodes.length
        hit.captures.snapshot ∧
      (options.following = true → (∀ q ∈ p.topLevel.getLast?, q.isWildcard = false) →
        ∀ more : List Expr, p.TakesFirst (options.withLeading false)
          (s.hitNodes.map Formula.unlabel ++ more) s.hitNodes.length hit.captures.snapshot) := by
  intro s hit hs hh
  obtain ⟨hp, hhit⟩ := hs.holds hh
  obtain ⟨taken, ht⟩ := takes_of_matchParts hhit.run
  obtain ⟨used, hused, hused'⟩ := ht.trim
  have hslice := hhit.take_drop hused
  have hlen : used.length = hit.stop - hit.start := by
    have hle := hhit.stop_le
    rw [← hslice, List.length_take, List.length_drop]
    omega
  have hnodes : s.hitNodes = used := by
    simp only [Search.hitNodes, hh, hs.unchanged.2.2, hslice]
  rw [hnodes]
  refine ⟨hlen, ?_, fun hf hl more => ?_⟩
  · have hrun : matchRun options p.topLevel used = .matched ([], hit.captures) :=
      matchRun_eq_matched_iff.mpr ⟨hused'.matchParts, .inr rfl⟩
    simpa using Pattern.takesFirst_of_matchRun hp rfl hrun
  · let after := (Tree.ofExpr (.sequence more)).topLevel
    have hafter : after.map Formula.unlabel = more := Tree.topLevel_ofExpr_sequence more
    have hrun : matchRun (options.withLeading false) p.topLevel (used ++ after) =
        .matched (after, hit.captures) := by
      rw [matchRun_withLeading]
      exact matchRun_eq_matched_iff.mpr ⟨(hused'.extend hl after).matchParts, .inl hf⟩
    have hitems : (used ++ after).map Formula.unlabel = used.map Formula.unlabel ++ more := by
      rw [List.map_append, hafter]
    simpa using Pattern.takesFirst_of_matchRun hp hitems hrun

/-- The pattern `w f(v x)` in `; a b f(c x y) d`, where tokens may lead and follow. -/
theorem match_is_local_between :
    let p : Pattern := ⟨.literal 0 ⟨"", .sequence, .empty⟩ [.wildcard 1 ⟨"w", .letter, .empty⟩,
      .literal 2 ⟨"f", .function, .empty⟩ [.wildcard 3 ⟨"v", .letter, .empty⟩,
        .literal 4 ⟨"x", .letter, .empty⟩ []]], []⟩
    let found : List Expr := [.leaf "a", .leaf "b",
      .application "f" [.leaf "c", .leaf "x", .leaf "y"]]
    let t : Tree := .ofExpr (.sequence (.leaf ";" :: found ++ [.leaf "d"]))
    ∃ hit, (Search.new p t .lenient).next.hit = some hit ∧ hit.start = 1 ∧ hit.stop = 4 ∧
      (∀ q ∈ p.topLevel.getLast?, q.isWildcard = false) ∧
      p.TakesFirst .lenient found 3 hit.captures.snapshot ∧
      ∀ more, p.TakesFirst (Options.lenient.withLeading false) (found ++ more) 3
        hit.captures.snapshot := by
  intro p found t
  have hl : ∀ q ∈ p.topLevel.getLast?, q.isWildcard = false := by
    intro q hq
    cases hq
    rfl
  obtain ⟨-, halone, hbefore⟩ := match_is_local p t .lenient _ _ (.next .new) rfl
  exact ⟨_, rfl, rfl, rfl, hl, halone, hbefore rfl hl⟩

end FormulaMatch
