import FormulaMatch.Proofs.Filling
import FormulaMatch.Proofs.Provenance
import FormulaMatch.Proofs.Spacing
import FormulaMatch.Proofs.Unambiguity

/-! Matching a pattern against itself with its wildcards filled in. Where no run can be mistaken for one
that ends earlier, the match gives back the runs that were put in. -/

namespace FormulaMatch

/-- Every run that is captured is the one that was put in. -/
def Captures.Agrees (runs : String → List Expr) (C : Captures) : Prop :=
  ∀ name run, C.get? name = some run → run.map Formula.unlabel = runs name

variable {options : Options} {runs : String → List Expr} {C D : Captures} {ps : List Part}
  {ns : List Node}

theorem Captures.Agrees.assign (h : C.Agrees runs) {name : String} {run : List Node}
    (hr : run.map Formula.unlabel = runs name) :
    ∃ D, C.assign name run = .matched D ∧ D.Agrees runs := by
  refine ⟨C.insert name run, assign_eq_matched_iff.mpr ⟨fun s hs => ?_, rfl⟩, ?_⟩
  · obtain ⟨earlier, he, rfl⟩ := Option.map_eq_some_iff.mp hs
    exact Formula.map_bare_of_unlabel ((h name earlier he).trans hr.symm)
  · intro other found hf
    rw [NameMap.get?_insert] at hf
    split at hf
    · subst_vars
      exact Option.some.inj hf ▸ hr
    · exact h other found hf

theorem matchPart_text_ne {p : Part} {n : Node} (h : n.text ≠ p.text) :
    (matchPart options p n C).isMatch = false := by
  cases p with
  | wildcard i hd => rfl
  | literal i hd ps =>
    have hne : (hd.text != n.text) = true := bne_iff_ne.mpr (Ne.symm h)
    simp [matchPart, hne, Outcome.isMatch]

theorem matchPart_of_children {i : Nat} {h : Head} {n : Node} (htext : h.text = n.text)
    (hleaf : ps = [] → n.isLeaf = true)
    (hm : matchParts options ps n.children C = .matched ([], D)) :
    matchPart options (.literal i h ps) n C = .matched D := by
  by_cases hps : ps = []
  · subst hps
    simp only [matchParts, Outcome.matched.injEq, Prod.mk.injEq] at hm
    exact matchPart_leaf_iff.mpr ⟨htext, hleaf rfl, hm.2⟩
  · exact (matchPart_branch_iff hps).mpr ⟨htext, [], hm, .inr rfl⟩

theorem exists_cons_of_fillAll {p : Part} {rest : List Part} (hp : p.isWildcard = false)
    (h : ns.map Formula.unlabel = Part.fillAll (fun _ => ()) runs (p :: rest)) :
    ∃ m left, ns = m :: left ∧ [m].map Formula.unlabel = Part.fillAll (fun _ => ()) runs [p] := by
  cases p with
  | wildcard i hd => simp [Part.isWildcard] at hp
  | literal i hd ps =>
    rw [Part.fillAll_literal] at h
    obtain ⟨m, left, rfl, hm, -⟩ := List.map_eq_cons_iff.mp h
    refine ⟨m, left, rfl, ?_⟩
    rw [List.map_singleton, hm, Part.fillAll_literal, Part.fillAll]

/-- Parts match the nodes that they stand for when their wildcards are filled in, from all captures
that agree with what was filled in. -/
theorem matchParts_fillAll (hb : options.ignoreBrackets = false)
    (hruns : ∀ name ∈ Part.names ps, runs name ≠ [])
    (hf : ∀ name next, Part.Followed ps name next →
      next.isWildcard = false ∧ Unambiguous next.text (runs name))
    (hns : ns.map Formula.unlabel = Part.fillAll (fun _ => ()) runs ps) (hC : C.Agrees runs) :
    ∃ D, matchParts options ps ns C = .matched ([], D) ∧ D.Agrees runs := by
  -- The part after a wildcard is matched twice, from `C` and from `C₂`; both agree with `runs`.
  induction ps using Part.row_induction generalizing ns C with
  | nil =>
    rw [Part.fillAll, List.map_eq_nil_iff] at hns
    subst hns
    exact ⟨C, by simp [matchParts], hC⟩
  | literal i hd ps rest ihps ihrest =>
    rw [Part.fillAll_literal] at hns
    obtain ⟨n, ms, rfl, hn, hms⟩ := List.map_eq_cons_iff.mp hns
    simp only [Part.names_literal, List.mem_append] at hruns
    obtain ⟨j, k, cs⟩ := n
    rw [Formula.unlabel_node, Formula.node.injEq] at hn
    obtain ⟨-, rfl, hcs⟩ := hn
    obtain ⟨C', hC', hag⟩ := ihps (fun name hn => hruns name (.inl hn))
      (fun name next h => hf name next (h.of_parts i k rest)) hcs hC
    obtain ⟨D, hD, hag'⟩ := ihrest (fun name hn => hruns name (.inr hn))
      (fun name next h => hf name next (h.cons _)) hms hag
    have hleaf : ps = [] → (Formula.node j k cs).isLeaf = true := by
      rintro rfl
      rw [Part.fillAll, List.map_eq_nil_iff] at hcs
      simp [Formula.isLeaf, Formula.children, hcs]
    exact ⟨D, matchParts_literal_iff.mpr ⟨C', matchPart_of_children rfl hleaf hC', hD⟩, hag'⟩
  | wildcard i hd rest ihrest ihpart =>
    simp only [Part.names_wildcard, List.mem_cons, forall_eq_or_imp] at hruns
    rw [Part.fillAll_wildcard] at hns
    obtain ⟨run, ms, rfl, hrun, hms⟩ := List.map_eq_append_iff.mp hns
    have hne : run ≠ [] := by
      rintro rfl
      exact hruns.1 hrun.symm
    obtain ⟨n, before, rfl⟩ := List.exists_cons_of_ne_nil hne
    cases rest with
    | nil =>
      rw [Part.fillAll, List.map_eq_nil_iff] at hms
      subst hms
      obtain ⟨D, hD, hag⟩ := hC.assign hrun
      rw [List.append_nil]
      exact ⟨D, matchParts_last_iff.mpr ⟨rfl, hD⟩, hag⟩
    | cons next rest =>
      obtain ⟨hlit, hu⟩ := hf hd.text next (.head i hd next rest)
      have hf' := fun name p (h : Part.Followed (next :: rest) name p) => hf name p (h.cons _)
      obtain ⟨m, left, rfl, hm⟩ := exists_cons_of_fillAll hlit hms
      have hnext : ∀ name ∈ Part.names [next], runs name ≠ [] := by
        intro name hn
        refine hruns.2 name ?_
        rw [Part.names_cons]
        exact List.mem_append_left _ hn
      obtain ⟨C₁, hC₁, hag₁⟩ := ihpart next List.mem_cons_self hnext
        (fun name p h => hf' name p (h.of_mem List.mem_cons_self)) hm hC
      rw [matchPart_of_matchParts hlit] at hC₁
      obtain ⟨C₂, hC₂, hag₂⟩ := hag₁.assign hrun
      obtain ⟨D, hD, hag⟩ := ihrest hruns.2 hf' hms hag₂
      obtain ⟨hstart, pending, hopened, hpasses⟩ :=
        hu.start_passes hb (fun _ => matchPart_text_ne) hrun.symm
      exact ⟨D, matchParts_stop_iff.mpr
        ⟨hstart, before, m, left, pending, C₁, C₂, rfl, hopened, hpasses, hC₁, hC₂, hD⟩, hag⟩

/-- The candidate that a pattern stands for when its wildcards are filled in. -/
def Pattern.filled (p : Pattern) (runs : String → List Expr) : Tree :=
  .ofExpr (.sequence (Part.fillAll (fun _ => ()) runs p.topLevel))

/-- A pattern matches the whole of what it becomes when its wildcards are filled in, and captures what
was filled in, if no run before another part can be mistaken for one that ends earlier. -/
theorem match_recovers_runs {recognises : String → Bool} {source : Tree} {p : Pattern}
    (hp : Pattern.ofTree recognises source = .ok p) (hne : p.topLevel ≠ []) (options : Options)
    (hb : options.ignoreBrackets = false) (runs : String → List Expr)
    (hruns : ∀ name ∈ p.wildcardNames, runs name ≠ [])
    (hu : ∀ name next, Part.Followed p.topLevel name next →
      Unambiguous next.text (runs name)) :
    ∃ C, p.matchWhole (p.filled runs) options = .matched C ∧
      (Search.new p (p.filled runs) options).next.hit =
        some ⟨0, (p.filled runs).topLevel.length, C⟩ ∧
      ∀ name, C.snapshot.get? name =
        if name ∈ p.wildcardNames then some (runs name) else none := by
  have hnames : ∀ name ∈ Part.names p.topLevel, runs name ≠ [] :=
    fun name hn => hruns name ((Pattern.mem_wildcardNames hne).mpr hn)
  have hrow : (p.filled runs).topLevel.map Formula.unlabel =
      Part.fillAll (fun _ => ()) runs p.topLevel := Tree.topLevel_ofExpr_sequence _
  have hempty : Captures.Agrees runs .empty := fun _ _ h => by cases h
  obtain ⟨C, hC, hag⟩ := matchParts_fillAll hb hnames
    (fun name next hf => ⟨Pattern.isWildcard_of_followed hp hf, hu name next hf⟩) hrow hempty
  have hseek := seek_of_matchParts (ne_nil_of_matchParts hne hC) hC
  have hsome : p.topLevel.isEmpty = false := by simpa using hne
  refine ⟨C, ?_, ?_, fun name => ?_⟩
  · simp [Pattern.matchWhole, hsome, hseek]
  · simp [Search.next, Search.new, hsome, hseek]
  · obtain ⟨taken, ht⟩ := takes_of_matchParts hC
    have hkeys : name ∈ C.keys ↔ name ∈ p.wildcardNames := by
      rw [ht.mem_keys_iff, Pattern.mem_wildcardNames hne]
    rw [NameMap.mem_keys_iff] at hkeys
    rw [Captures.snapshot, NameMap.get?_map]
    cases hg : C.get? name with
    | none =>
      rw [hg] at hkeys
      simp [← hkeys]
    | some run =>
      rw [hg] at hkeys
      simp [← hkeys, hag name run hg]

/-- The pattern `w = f(w x)` with `( = )` for `w`. -/
theorem match_recovers_runs_bracketed :
    let source : Tree := .ofExpr (.sequence [.leaf "w", .leaf "=",
      .application "f" [.leaf "w", .leaf "x"]])
    let run : List Expr := [.leaf "(", .leaf "=", .leaf ")"]
    ∃ p, Pattern.ofTree (· == "w") source = .ok p ∧ p.topLevel ≠ [] ∧
      (∀ next, Unambiguous next run) ∧
      ∃ C, p.matchWhole (p.filled fun _ => run) .exact = .matched C ∧
        C.snapshot.get? "w" = some run ∧ C.snapshot.get? "x" = none := by
  intro source run
  have hopen : ∀ before r after pending, run = before ++ r :: after → before ≠ [] →
      Pending.feedAll [] (before.map Formula.text) = .matched pending →
      pending.mustClose = true := by
    intro before r after pending hrun hne hp
    rcases before with _ | ⟨b, _ | ⟨c, before⟩⟩
    · exact absurd rfl hne
    · obtain ⟨rfl, -⟩ := List.cons.inj hrun
      cases hp
      rfl
    · obtain ⟨rfl, htail⟩ := List.cons.inj hrun
      obtain ⟨rfl, hlast⟩ := List.cons.inj htail
      obtain rfl : before = [] := by cases before <;> simp_all
      cases hp
      rfl
  have hu : ∀ next, Unambiguous next run := by
    refine fun next => ⟨fun r hr => ?_, ⟨[], rfl, rfl⟩, ?_, ?_⟩
    · obtain rfl := Option.some.inj hr
      rfl
    · intro before r after pending hrun hne hp hc
      simp [hopen _ _ _ _ hrun hne hp] at hc
    · rintro before r after pending hrun hne hp - rfl
      have hc := hopen _ _ _ _ hrun hne hp
      simp [Pending.mustClose] at hc
  have hp : ∃ p, Pattern.ofTree (· == "w") source = .ok p ∧ p.topLevel ≠ [] ∧
      p.wildcardNames = ["w"] := ⟨_, rfl, List.cons_ne_nil _ _, rfl⟩
  obtain ⟨p, hp, hne, hnames⟩ := hp
  obtain ⟨C, hC, -, hall⟩ := match_recovers_runs hp hne .exact rfl (fun _ => run)
    (fun _ _ => List.cons_ne_nil _ _) (fun _ next _ => hu next.text)
  refine ⟨p, hp, hne, hu, C, hC, ?_, ?_⟩
  · simp [hall, hnames]
  · simp [hall, hnames]

end FormulaMatch
