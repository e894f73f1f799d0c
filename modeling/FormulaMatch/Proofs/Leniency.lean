import FormulaMatch.Proofs.Provenance
import FormulaMatch.Proofs.Spacing
import FormulaMatch.Proofs.Tolerance
import FormulaMatch.Proofs.Trials

/-! Matching with fewer demands. Tokens that may follow may also be left over inside a node, and then a
part can match nodes before the one at which a wildcard stopped without them. The match is kept if
no wildcard has taken in such a node. -/

namespace FormulaMatch

open Captures (Entry)

/-- No node that a wildcard took in, the first apart, stops it under `options'` alone: the part after
the wildcard matches it under `options` as well. -/
def Part.SameStops (options options' : Options) (ps : List Part) (E : Captures) : Prop :=
  ∀ name next run, Followed ps name next → E.get? name = some run → ∀ n ∈ run.tail,
    ∀ D : Captures, D.HeldBy E → (matchPart options' next n D).isMatch = true →
      (matchPart options next n D).isMatch = true

variable {options options' : Options} {ps rest : List Part} {p : Part} {queue beyond ns : List Node}
  {C D E : Captures} {taken : List Entry}

theorem Part.SameStops.cons (h : SameStops options options' (p :: rest) E) :
    SameStops options options' rest E :=
  fun name next run hf => h name next run (hf.cons p)

theorem Part.SameStops.of_parts {i : Nat} {hd : Head}
    (h : SameStops options options' (.literal i hd ps :: rest) E) :
    SameStops options options' ps E :=
  fun name next run hf => h name next run (hf.of_parts i hd rest)

theorem Part.SameStops.of_mem (h : SameStops options options' ps E) (hp : p ∈ ps) :
    SameStops options options' [p] E :=
  fun name next run hf => h name next run (hf.of_mem hp)

theorem Passes.congr (hb : options.ignoreBrackets = options'.ignoreBrackets)
    {stops : Node → Bool} {pending : Pending} (h : Passes options stops pending ns) :
    Passes options' stops pending ns := by
  induction ns generalizing pending with
  | nil => exact h
  | cons n ns ih =>
    obtain ⟨hstop, hdiv, after, htrack, hrest⟩ := h
    exact ⟨hstop, hdiv, after, track_congr hb ▸ htrack, ih hrest⟩

/-- The wildcards take in the same runs under both options. -/
theorem Takes.loosen (hb : options.ignoreBrackets = options'.ignoreBrackets)
    (hf : options.following = true → options'.following = true)
    (h : Takes options ps queue C taken beyond D) (hE : D.HeldBy E)
    (hs : Part.SameStops options options' ps E) : Takes options' ps queue C taken beyond D := by
  induction h with
  | nil => exact .nil _ _
  | leaf text leaf _ ih => exact .leaf text leaf (ih hE hs.cons)
  | branch text parts _ extra_ok tail ihc ih =>
    exact .branch text parts (ihc (tail.heldBy.trans hE) hs.of_parts) (extra_ok.imp_left hf)
      (ih hE hs.cons)
  | last assigned => exact .last assigned
  | @stop i hd next _ n before m _ C _ _ _ _ _ _ _ start opened passes stops looked assigned tail
      ihl ih =>
    have hafter := tail.heldBy.trans hE
    have hahead := (Captures.HeldBy.of_assign assigned).trans hafter
    have hlook := ihl hahead (hs.cons.of_mem List.mem_cons_self)
    have hstops := (matchPart_eq_matched_iff (isWildcard_of_matchPart stops)).mpr ⟨_, hlook⟩
    -- What is captured in the end has the shape of this run, node by node.
    obtain ⟨run, hrun, hbare⟩ :=
      Option.map_eq_some_iff.mp (hafter.shape? (Captures.shape?_of_assign assigned))
    have htail : run.tail.map Formula.bare = before.map Formula.bare := by
      simpa using congrArg List.tail hbare
    have hpass : ∀ x ∈ before, (matchPart options next x C).isMatch = false →
        (matchPart options' next x C).isMatch = false := by
      intro x hx hno
      have hmem : x.bare ∈ run.tail.map Formula.bare := htail ▸ List.mem_map_of_mem hx
      obtain ⟨y, hy, hyx⟩ := List.mem_map.mp hmem
      by_contra hyes
      rw [Bool.not_eq_false, ← isMatch_matchPart_eq hyx fun _ => rfl] at hyes
      have hsame := hs hd.text next run (.head i hd next _) hrun y hy C
        (looked.heldBy.trans hahead) hyes
      rw [isMatch_matchPart_eq hyx fun _ => rfl, hno] at hsame
      simp at hsame
    have hpasses := (passes.congr hb).transfer
      (List.forall₂_same.mpr fun x hx => ⟨rfl, hpass x hx⟩)
    exact .stop start (track_congr hb ▸ opened) hpasses hstops hlook assigned (ih hE hs.cons)

theorem Part.sameStops_of_tight (hb : options.ignoreBrackets = options'.ignoreBrackets)
    (h : options.following = options'.following ∨
      ∀ name next, Followed ps name next → next.tight = true) (E : Captures) :
    SameStops options options' ps E := by
  intro name next run hf _ n _ D _ hm
  have htight : options.following = options'.following ∨ tights [next] = true :=
    h.imp_right fun ht => tights_cons.mpr ⟨ht name next hf, rfl⟩
  rw [matchPart_congr_of_single (matchParts_congr hb htight)]
  exact hm

/-- What matches under some options matches as well when more tokens may lead or follow, unless a
wildcard has taken in a node which the part after it then matches with children left over. Nothing
is lost where tokens may follow under both options or under none, or where every part after a
wildcard is tight. -/
theorem leniency_monotone (p : Pattern) (options options' : Options)
    (hb : options.ignoreBrackets = options'.ignoreBrackets)
    (hl : options.leading = true → options'.leading = true)
    (hf : options.following = true → options'.following = true) :
    (∀ t C, p.matchWhole t options = .matched C →
      Part.SameStops options options' p.topLevel C → (p.matchWhole t options').isMatch = true) ∧
    ((options.following = options'.following ∨
        ∀ name next, Part.Followed p.topLevel name next → next.tight = true) →
      ∀ t, (p.matchWhole t options).isMatch = true → (p.matchWhole t options').isMatch = true) := by
  have hmain : ∀ t C, p.matchWhole t options = .matched C →
      Part.SameStops options options' p.topLevel C → (p.matchWhole t options').isMatch = true := by
    intro t C hC hs
    by_cases hp : p.topLevel = []
    · obtain ⟨ht, -⟩ := matchWhole_of_topLevel_eq_nil hp hC
      simp [Pattern.matchWhole, hp, ht, Outcome.guard, Outcome.isMatch]
    · obtain ⟨hit, hh, rfl⟩ := holds_of_matchWhole hp hC
      obtain ⟨taken, ht⟩ := takes_of_matchParts hh.run
      have hrun : matchRun options' p.topLevel (t.topLevel.drop hit.start) =
          .matched (t.topLevel.drop hit.stop, hit.captures) := by
        have hparts := (ht.loosen hb hf (.refl _) hs).matchParts
        exact matchRun_eq_matched_iff.mpr ⟨hparts, hh.may_follow.imp_left hf⟩
      exact (isMatch_matchWhole_iff hp).mpr
        ⟨hit.start, hh.may_lead.imp_left hl, Outcome.isMatch_iff.mpr ⟨_, hrun⟩⟩
  refine ⟨hmain, fun h t hm => ?_⟩
  obtain ⟨C, hC⟩ := Outcome.isMatch_iff.mp hm
  exact hmain t C hC (Part.sameStops_of_tight hb h C)

/-- The pattern `g(w f(x) z)` in `g(a f(y) f(x) z)`, where `f(x)` never matches `f(y)`, and the pattern
`w f(v) z`, in which `f(v)` is tight. -/
theorem leniency_monotone_application :
    let x : Part := .literal 3 ⟨"x", .letter, .empty⟩ []
    let p : Pattern := ⟨.literal 0 ⟨"g", .function, .empty⟩ [.wildcard 1 ⟨"w", .letter, .empty⟩,
      .literal 2 ⟨"f", .function, .empty⟩ [x], .literal 4 ⟨"z", .letter, .empty⟩ []], []⟩
    let t : Tree := .ofExpr (.application "g" [.leaf "a", .application "f" [.leaf "y"],
      .application "f" [.leaf "x"], .leaf "z"])
    let C : Captures := NameMap.insert .empty "w" (t.root.children.take 2)
    let q : Pattern := ⟨.literal 0 ⟨"", .sequence, .empty⟩ [.wildcard 1 ⟨"w", .letter, .empty⟩,
      .literal 2 ⟨"f", .function, .empty⟩ [.wildcard 3 ⟨"v", .letter, .empty⟩],
      .literal 4 ⟨"z", .letter, .empty⟩ []], []⟩
    let u : Tree := .ofExpr (.sequence [.leaf "a", .leaf "b",
      .application "f" [.leaf "c", .leaf "d"], .leaf "z"])
    (p.matchWhole t .exact = .matched C ∧ Part.SameStops .exact .lenient p.topLevel C ∧
      (p.matchWhole t .lenient).isMatch = true) ∧
    (∀ name next, Part.Followed q.topLevel name next → next.tight = true) ∧
      (q.matchWhole u .exact).isMatch = true ∧ (q.matchWhole u .lenient).isMatch = true := by
  intro x p t C q u
  have hC : p.matchWhole t .exact = .matched C := rfl
  have hs : Part.SameStops .exact .lenient p.topLevel C := by
    intro name next run hf hrun n hn D _ hm
    have hnext : "w" = name ∧ .literal 2 ⟨"f", .function, .empty⟩ [x] = next := by
      simpa [p, x, Pattern.topLevel, Head.isAnonymous, Part.head, Part.followed_cons_iff,
        Part.not_followed_nil, Part.parts] using hf
    obtain ⟨rfl, rfl⟩ := hnext
    obtain rfl : t.root.children.take 2 = run := Option.some.inj hrun
    obtain rfl : n = (Expr.application "f" [.leaf "y"]).numberFrom 2 := List.mem_singleton.mp hn
    exact absurd hm Bool.false_ne_true
  have ht : ∀ name next, Part.Followed q.topLevel name next → next.tight = true := by
    intro name next hf
    have hnext : "w" = name ∧ .literal 2 ⟨"f", .function, .empty⟩
        [.wildcard 3 ⟨"v", .letter, .empty⟩] = next := by
      simpa [q, Pattern.topLevel, Head.isAnonymous, Part.head, Part.followed_cons_iff,
        Part.not_followed_nil, Part.parts] using hf
    obtain ⟨-, rfl⟩ := hnext
    rfl
  have hq : (q.matchWhole u .exact).isMatch = true := rfl
  obtain ⟨hmain, -⟩ := leniency_monotone p .exact .lenient rfl (fun _ => rfl) (fun _ => rfl)
  obtain ⟨-, htight⟩ := leniency_monotone q .exact .lenient rfl (fun _ => rfl) (fun _ => rfl)
  exact ⟨⟨hC, hs, hmain t C hC hs⟩, ht, hq, htight (.inr ht) u hq⟩

/-- The pattern `g(w f(x) z)` matches `g(a f(x y) f(x) z)` as a whole. When tokens may follow, `w` stops
at `f(x y)` already, and `z` does not match what comes next. -/
theorem lenient_loses_exact_match :
    let source : Tree := .ofExpr (.application "g"
      [.leaf "w", .application "f" [.leaf "x"], .leaf "z"])
    let t : Tree := .ofExpr (.application "g" [.leaf "a",
      .application "f" [.leaf "x", .leaf "y"], .application "f" [.leaf "x"], .leaf "z"])
    Options.exact.ignoreBrackets = Options.lenient.ignoreBrackets ∧
    (Options.exact.leading = true → Options.lenient.leading = true) ∧
    (Options.exact.following = true → Options.lenient.following = true) ∧
    ∃ p, Pattern.ofTree (· == "w") source = .ok p ∧
      (p.matchWhole t .exact).isMatch = true ∧ (p.matchWhole t .lenient).isMatch = false := by
  intro source t
  exact ⟨rfl, fun _ => rfl, fun _ => rfl, _, rfl, rfl, rfl⟩

end FormulaMatch
