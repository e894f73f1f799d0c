import FormulaMatch.Match.Sequence
import FormulaMatch.Proofs.Absorption
import FormulaMatch.Proofs.Agreement
import FormulaMatch.Proofs.Occurrences

/-! What the occurrences of wildcards take in. A successful match is a derivation that says, for each
occurrence in order, which run it took in; a derivation exists exactly when the match succeeds. -/

namespace FormulaMatch

open Captures (Entry)

/-- `Takes options ps queue C taken beyond D`: the parts match the front of the queue, of which `beyond`
is left. Their wildcards take in `taken`, in order of occurrence, and the captures go from `C` to
`D`. A wildcard before another part stops at the first node which that part matches on its own. -/
inductive Takes (options : Options) :
    List Part → List Node → Captures → List Entry → List Node → Captures → Prop
  | nil (queue C) : Takes options [] queue C [] queue C
  | leaf {i h rest n queue C taken beyond D} (text : h.text = n.text) (leaf : n.isLeaf = true)
      (tail : Takes options rest queue C taken beyond D) :
      Takes options (.literal i h [] :: rest) (n :: queue) C taken beyond D
  | branch {i h ps rest n queue C inside extra C' taken beyond D} (text : h.text = n.text)
      (parts : ps ≠ []) (children : Takes options ps n.children C inside extra C')
      (extra_ok : options.following = true ∨ extra = [])
      (tail : Takes options rest queue C' taken beyond D) :
      Takes options (.literal i h ps :: rest) (n :: queue) C (inside ++ taken) beyond D
  | last {i h n queue C D} (assigned : C.assign h.text (n :: queue) = .matched D) :
      Takes options [.wildcard i h] (n :: queue) C [(h.text, n :: queue)] [] D
  | stop {i h next rest n before m left C pending ahead C₁ C₂ taken beyond D}
      (start : isDivider n.text = false)
      (opened : Pending.track options [] n.text = .matched pending)
      (passes : Passes options (fun x => (matchPart options next x C).isMatch) pending before)
      (stops : matchPart options next m C = .matched C₁)
      (looked : Takes options [next] [m] C ahead [] C₁)
      (assigned : C₁.assign h.text (n :: before) = .matched C₂)
      (tail : Takes options (next :: rest) (m :: left) C₂ taken beyond D) :
      Takes options (.wildcard i h :: next :: rest) (n :: (before ++ m :: left)) C
        ((h.text, n :: before) :: taken) beyond D

variable {options : Options} {ps : List Part} {queue beyond : List Node} {C D : Captures}
  {taken : List Entry}

theorem matchPart_leaf_iff {i : Nat} {h : Head} {n : Node} :
    matchPart options (.literal i h []) n C = .matched D ↔
      h.text = n.text ∧ n.isLeaf = true ∧ C = D := by
  by_cases ht : h.text = n.text <;> simp [matchPart, ht]

theorem matchPart_branch_iff {i : Nat} {h : Head} {n : Node} (hps : ps ≠ []) :
    matchPart options (.literal i h ps) n C = .matched D ↔
      h.text = n.text ∧ ∃ extra, matchParts options ps n.children C = .matched (extra, D) ∧
        (options.following = true ∨ extra = []) := by
  have he : ps.isEmpty = false := by simpa using hps
  by_cases ht : h.text = n.text
  · simp only [matchPart, ht, bne_self_eq_false, Bool.false_eq_true, if_false, he, true_and,
      Outcome.bind_eq_matched_iff, Outcome.guard_eq_matched_iff]
    constructor
    · rintro ⟨⟨extra, E⟩, hm, hextra, rfl⟩
      exact ⟨extra, hm, by simpa using hextra⟩
    · rintro ⟨extra, hm, hextra⟩
      exact ⟨(extra, D), hm, by simpa using hextra, rfl⟩
  · simp [matchPart, ht]

theorem matchParts_literal_iff {i : Nat} {h : Head} {rest : List Part} {n : Node} :
    matchParts options (.literal i h ps :: rest) (n :: queue) C = .matched (beyond, D) ↔
      ∃ C', matchPart options (.literal i h ps) n C = .matched C' ∧
        matchParts options rest queue C' = .matched (beyond, D) := by
  rw [matchParts, Outcome.bind_eq_matched_iff]

theorem matchParts_last_iff {i : Nat} {h : Head} {n : Node} :
    matchParts options [.wildcard i h] (n :: queue) C = .matched (beyond, D) ↔
      beyond = [] ∧ C.assign h.text (n :: queue) = .matched D := by
  rw [matchParts, Outcome.map, Outcome.bind_eq_matched_iff]
  constructor
  · rintro ⟨E, hE, he⟩
    cases he
    exact ⟨rfl, hE⟩
  · rintro ⟨rfl, hE⟩
    exact ⟨D, hE, rfl⟩

theorem matchParts_stop_iff {i : Nat} {h : Head} {next : Part} {rest : List Part} {n : Node} :
    matchParts options (.wildcard i h :: next :: rest) (n :: queue) C = .matched (beyond, D) ↔
      isDivider n.text = false ∧ ∃ before m left pending C₁ C₂,
        queue = before ++ m :: left ∧
        Pending.track options [] n.text = .matched pending ∧
        Passes options (fun x => (matchPart options next x C).isMatch) pending before ∧
        matchPart options next m C = .matched C₁ ∧
        C₁.assign h.text (n :: before) = .matched C₂ ∧
        matchParts options (next :: rest) (m :: left) C₂ = .matched (beyond, D) := by
  rw [matchParts, Outcome.bind_eq_matched_iff]
  constructor
  · rintro ⟨run, hrun, h⟩
    obtain ⟨C₂, hassign, hrest⟩ := Outcome.bind_eq_matched_iff.1 h
    obtain ⟨hdiv, before, m, left, pending, htaken, hleft, hq, hm, htrack, hpass⟩ :=
      absorbFrom_eq_matched_iff.mp hrun
    rw [htaken] at hassign
    rw [hleft] at hrest
    exact ⟨hdiv, before, m, left, pending, run.captures, C₂, hq, htrack, hpass, hm, hassign, hrest⟩
  · rintro ⟨hdiv, before, m, left, pending, C₁, C₂, hq, htrack, hpass, hm, hassign, hrest⟩
    subst hq
    exact ⟨_, absorbFrom_of_passes hdiv htrack hpass hm left,
      Outcome.bind_eq_matched_iff.2 ⟨C₂, hassign, hrest⟩⟩

theorem Takes.matchParts (h : Takes options ps queue C taken beyond D) :
    matchParts options ps queue C = .matched (beyond, D) := by
  induction h with
  | nil queue C => simp [FormulaMatch.matchParts]
  | leaf text leaf _ ih =>
    exact matchParts_literal_iff.mpr ⟨_, matchPart_leaf_iff.mpr ⟨text, leaf, rfl⟩, ih⟩
  | branch text parts _ extra_ok _ ihc ih =>
    exact matchParts_literal_iff.mpr
      ⟨_, (matchPart_branch_iff parts).mpr ⟨text, _, ihc, extra_ok⟩, ih⟩
  | last assigned => exact matchParts_last_iff.mpr ⟨rfl, assigned⟩
  | stop start opened passes stops _ assigned _ _ ih =>
    exact matchParts_stop_iff.mpr
      ⟨start, _, _, _, _, _, _, rfl, opened, passes, stops, assigned, ih⟩

theorem matchParts_single {p : Part} {n : Node} (hp : p.isWildcard = false) :
    matchParts options [p] [n] C = (matchPart options p n C).map fun D => ([], D) := by
  cases p with
  | wildcard i h => simp [Part.isWildcard] at hp
  | literal i h ps => simp only [matchParts, Outcome.map]

theorem matchPart_of_matchParts {p : Part} {n : Node} (hp : p.isWildcard = false) :
    matchParts options [p] [n] C = .matched ([], D) ↔ matchPart options p n C = .matched D := by
  rw [matchParts_single hp, Outcome.map, Outcome.bind_eq_matched_iff]
  simp

theorem isWildcard_of_matchPart {p : Part} {n : Node} (h : matchPart options p n C = .matched D) :
    p.isWildcard = false := by
  cases p with
  | wildcard i h => simp [matchPart] at h
  | literal i h ps => rfl

theorem takes_of_matchParts (h : matchParts options ps queue C = .matched (beyond, D)) :
    ∃ taken, Takes options ps queue C taken beyond D := by
  induction ps using Part.row_induction generalizing queue C beyond D with
  | nil =>
    simp only [matchParts, Outcome.matched.injEq, Prod.mk.injEq] at h
    obtain ⟨rfl, rfl⟩ := h
    exact ⟨[], .nil _ _⟩
  | literal i hd ps rest ihps ihrest =>
    cases queue with
    | nil => simp [matchParts] at h
    | cons n queue =>
      obtain ⟨C', hn, hrest⟩ := matchParts_literal_iff.mp h
      obtain ⟨taken, ht⟩ := ihrest hrest
      by_cases hps : ps = []
      · subst hps
        obtain ⟨htext, hleaf, rfl⟩ := matchPart_leaf_iff.mp hn
        exact ⟨taken, .leaf htext hleaf ht⟩
      · obtain ⟨htext, extra, hm, hextra⟩ := (matchPart_branch_iff hps).mp hn
        obtain ⟨inside, hi⟩ := ihps hm
        exact ⟨inside ++ taken, .branch htext hps hi hextra ht⟩
  | wildcard i hd rest ihrest ihpart =>
    cases queue with
    | nil => simp [matchParts] at h
    | cons n queue =>
      cases rest with
      | nil =>
        obtain ⟨rfl, ha⟩ := matchParts_last_iff.mp h
        exact ⟨_, .last ha⟩
      | cons next rest =>
        obtain ⟨hdiv, before, m, left, pending, C₁, C₂, rfl, htrack, hpass, hm, ha, hrest⟩ :=
          matchParts_stop_iff.mp h
        obtain ⟨ahead, hahead⟩ := ihpart next (by simp)
          ((matchPart_of_matchParts (isWildcard_of_matchPart hm)).mpr hm)
        obtain ⟨taken, ht⟩ := ihrest hrest
        exact ⟨_, .stop hdiv htrack hpass hm hahead ha ht⟩

theorem matchParts_eq_matched_iff :
    matchParts options ps queue C = .matched (beyond, D) ↔
      ∃ taken, Takes options ps queue C taken beyond D :=
  ⟨takes_of_matchParts, fun ⟨_, h⟩ => h.matchParts⟩

theorem matchPart_eq_matched_iff {p : Part} {n : Node} (hp : p.isWildcard = false) :
    matchPart options p n C = .matched D ↔ ∃ taken, Takes options [p] [n] C taken [] D := by
  rw [← matchPart_of_matchParts hp, matchParts_eq_matched_iff]

end FormulaMatch
