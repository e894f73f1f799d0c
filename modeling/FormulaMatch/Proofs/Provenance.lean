import FormulaMatch.Proofs.Hits
import FormulaMatch.Proofs.Lookahead
import FormulaMatch.Proofs.Siblings

/-! Where captures come from. Every wildcard that occurs in the pattern has a run in the end and no
other name has one. A run consists of siblings from the part of the candidate that was matched, and
the run of a repeated wildcard is the one that its last occurrence took in. -/

namespace FormulaMatch

open Captures (Entry)

/-- The run stands among the nodes, or among the children of a node in one of them. -/
def RowIn (nodes run : List Node) : Prop :=
  run <:+: nodes ∨ ∃ n ∈ nodes, ∃ m ∈ n.preorder, run <:+: m.children

theorem RowIn.mono {nodes more run : List Node} (h : RowIn nodes run) (hs : nodes <:+: more) :
    RowIn more run := by
  rcases h with h | ⟨n, hn, m, hm, h⟩
  · exact .inl (h.trans hs)
  · exact .inr ⟨n, hs.subset hn, m, hm, h⟩

theorem RowIn.of_children {nodes run : List Node} {n : Node} (hn : n ∈ nodes)
    (h : RowIn n.children run) : RowIn nodes run := by
  rcases h with h | ⟨c, hc, m, hm, h⟩
  · exact .inr ⟨n, hn, n, n.mem_preorder_self, h⟩
  · exact .inr ⟨n, hn, m, Formula.mem_preorder_of_child hc hm, h⟩

theorem RowIn.exists_mem {nodes run : List Node} (h : RowIn nodes run) {c : Node} (hc : c ∈ run) :
    ∃ n ∈ nodes, c ∈ n.preorder := by
  rcases h with h | ⟨n, hn, m, hm, h⟩
  · exact ⟨c, h.subset hc, c.mem_preorder_self⟩
  · exact ⟨n, hn, Formula.preorder_trans hm
      (Formula.mem_preorder_of_child (h.subset hc) c.mem_preorder_self)⟩

theorem RowIn.siblings {t : Tree} {nodes run : List Node} (h : RowIn nodes run)
    (ht : nodes <:+: t.topLevel) : t.Siblings run := by
  rcases h with h | ⟨n, hn, m, hm, h⟩
  · exact t.siblings_topLevel.of_isInfix (h.trans ht)
  · exact (Tree.siblings_children (Tree.mem_nodes_of_topLevel (ht.subset hn) hm)).of_isInfix h

variable {options : Options} {ps : List Part} {queue beyond : List Node} {C D : Captures}
  {taken : List Entry}

theorem Takes.rowIn (h : Takes options ps queue C taken beyond D) :
    ∃ used, queue = used ++ beyond ∧ ∀ entry ∈ taken, entry.2 ≠ [] ∧ RowIn used entry.2 := by
  induction h with
  | nil => exact ⟨[], rfl, by simp⟩
  | @leaf _ _ _ n _ _ _ _ _ _ _ _ ih =>
    obtain ⟨used, rfl, hall⟩ := ih
    have hs : used <:+: n :: used := (List.suffix_cons n used).isInfix
    exact ⟨n :: used, rfl, fun entry he => (hall entry he).imp_right (·.mono hs)⟩
  | @branch _ _ _ _ n _ _ _ _ _ _ _ _ _ _ _ _ _ ihc ih =>
    obtain ⟨used, rfl, hall⟩ := ih
    obtain ⟨inner, hinner, hin⟩ := ihc
    have hs : used <:+: n :: used := (List.suffix_cons n used).isInfix
    have hc : inner <:+: n.children := hinner ▸ (List.prefix_append inner _).isInfix
    refine ⟨n :: used, rfl, fun entry he => ?_⟩
    rcases List.mem_append.mp he with he | he
    · exact (hin entry he).imp_right fun h => .of_children List.mem_cons_self (h.mono hc)
    · exact (hall entry he).imp_right (·.mono hs)
  | @last _ _ n queue _ _ _ =>
    refine ⟨n :: queue, (List.append_nil _).symm, fun entry he => ?_⟩
    obtain rfl := List.mem_singleton.mp he
    exact ⟨List.cons_ne_nil _ _, .inl List.infix_rfl⟩
  | @stop _ _ _ _ n before _ _ _ _ _ _ _ _ _ _ _ _ _ _ _ _ _ _ ih =>
    obtain ⟨used, hu, hall⟩ := ih
    refine ⟨(n :: before) ++ used, by simp [hu], fun entry he => ?_⟩
    rcases List.mem_cons.mp he with rfl | he
    · exact ⟨List.cons_ne_nil _ _, .inl (List.prefix_append _ _).isInfix⟩
    · exact (hall entry he).imp_right (·.mono (List.suffix_append _ _).isInfix)

theorem Takes.get? (h : Takes options ps queue .empty taken beyond D) (name : String) :
    D.get? name = taken.reverse.lookup name := by
  rw [h.eq_record, Captures.get?_record, NameMap.get?_empty, Option.or_none]

theorem Takes.mem_of_get? (h : Takes options ps queue .empty taken beyond D) {name : String}
    {run : List Node} (hr : D.get? name = some run) : (name, run) ∈ taken := by
  rw [h.get?] at hr
  obtain ⟨before, after, hsplit, -⟩ := List.lookup_eq_some_iff.mp hr
  have hmem : (name, run) ∈ taken.reverse := by simp [hsplit]
  exact List.mem_reverse.mp hmem

theorem Takes.mem_keys_iff (h : Takes options ps queue .empty taken beyond D) {name : String} :
    name ∈ D.keys ↔ name ∈ Part.names ps := by
  rw [NameMap.mem_keys_iff, Option.isSome_iff_exists, ← h.names, List.mem_map]
  constructor
  · rintro ⟨run, hr⟩
    exact ⟨_, h.mem_of_get? hr, rfl⟩
  · rintro ⟨entry, he, rfl⟩
    obtain ⟨run, hr, -⟩ := Option.map_eq_some_iff.mp (h.shape? entry he)
    exact ⟨run, hr⟩

theorem Takes.sameShapes (h : Takes options ps queue C taken beyond D) {first second : Entry}
    (hf : first ∈ taken) (hs : second ∈ taken) (hn : first.1 = second.1) :
    Formula.sameShapes first.2 second.2 = true := by
  have heq := h.shape? first hf
  rw [hn, h.shape? second hs, Option.some.injEq] at heq
  exact Formula.sameShapes_iff.mpr heq.symm

/-- The captures come from the nodes of the candidate from place `start` to place `stop`: `taken` are
the runs of all occurrences of wildcards, in the order of these. -/
structure Pattern.Provenance (p : Pattern) (t : Tree) (options : Options) (start stop : Nat)
    (C : Captures) : Prop where
  start_le : start ≤ stop
  stop_le : stop ≤ t.topLevel.length
  keys : ∀ name, name ∈ C.keys ↔ name ∈ p.wildcardNames
  nonempty : ∀ name run, C.get? name = some run → run ≠ []
  siblings : ∀ name run, C.get? name = some run → t.Siblings run
  within : ∀ name run, C.get? name = some run → ∀ n ∈ run,
    ∃ m ∈ (t.topLevel.drop start).take (stop - start), n ∈ m.preorder
  occurrences : ∃ taken, Takes options p.topLevel (t.topLevel.drop start) .empty taken
      (t.topLevel.drop stop) C ∧
    taken.map Prod.fst = p.root.preorder.filterMap Part.wildcardName? ∧
    (∀ name, C.get? name = taken.reverse.lookup name) ∧
    ∀ first ∈ taken, ∀ second ∈ taken, first.1 = second.1 →
      Formula.sameShapes first.2 second.2 = true

theorem Hit.Holds.provenance {p : Pattern} {t : Tree} {hit : Hit} (hp : p.topLevel ≠ [])
    (h : hit.Holds options p.topLevel t.topLevel) :
    p.Provenance t options hit.start hit.stop hit.captures := by
  obtain ⟨taken, ht⟩ := takes_of_matchParts h.run
  obtain ⟨used, hused, hall⟩ := ht.rowIn
  have hslice := h.take_drop hused
  have hin : used <:+: t.topLevel := by
    refine List.IsInfix.trans ?_ (List.drop_suffix hit.start _).isInfix
    exact hused ▸ (List.prefix_append used _).isInfix
  refine ⟨h.start_le, h.stop_le, fun name => ?_, fun name run hr => ?_, fun name run hr => ?_,
    fun name run hr n hn => ?_, taken, ht, ?_, ht.get?, fun _ hf _ hs => ht.sameShapes hf hs⟩
  · rw [ht.mem_keys_iff, Pattern.mem_wildcardNames hp]
  · exact (hall _ (ht.mem_of_get? hr)).1
  · exact (hall _ (ht.mem_of_get? hr)).2.siblings hin
  · rw [hslice]
    exact (hall _ (ht.mem_of_get? hr)).2.exists_mem hn
  · rw [ht.names, Pattern.names_topLevel hp]

/-- Whenever a search has found a run, after any steps and restarts, and whenever a candidate is
matched as a whole, the names of the captures are those of the wildcards that the pattern reaches.
Nothing stays of what was captured by looking ahead in vain or is named in a detached part. -/
theorem captures_provenance (p : Pattern) (t : Tree) (options : Options) (hp : p.topLevel ≠ []) :
    (∀ s hit, Search.Reached p t options s → s.hit = some hit →
      p.Provenance t options hit.start hit.stop hit.captures) ∧
    (∀ C, p.matchWhole t options = .matched C →
      ∃ start stop, p.Provenance t options start stop C) := by
  constructor
  · intro s hit hs hh
    exact (hs.holds hh).2.provenance hp
  · intro C hC
    obtain ⟨hit, h, rfl⟩ := holds_of_matchWhole hp hC
    exact ⟨hit.start, hit.stop, h.provenance hp⟩

/-- The pattern `w f(v x)` in `a f(b y) f(c x)`, where the first application does not stop `w`. -/
theorem captures_provenance_lookahead :
    let p : Pattern := ⟨.literal 0 ⟨"", .sequence, .empty⟩ [.wildcard 1 ⟨"w", .letter, .empty⟩,
      .literal 2 ⟨"f", .function, .empty⟩ [.wildcard 3 ⟨"v", .letter, .empty⟩,
        .literal 4 ⟨"x", .letter, .empty⟩ []]], [.wildcard 5 ⟨"u", .letter, .empty⟩]⟩
    let t : Tree := .ofExpr (.sequence [.leaf "a", .application "f" [.leaf "b", .leaf "y"],
      .application "f" [.leaf "c", .leaf "x"]])
    p.topLevel ≠ [] ∧
    (∃ hit, (Search.new p t .exact).next.hit = some hit ∧ hit.captures.keys = ["v", "w"] ∧
      p.Provenance t .exact hit.start hit.stop hit.captures) ∧
    ∃ C start stop, p.matchWhole t .exact = .matched C ∧
      (C.get? "w").map (List.map Formula.label) = some [1, 2] ∧
      p.Provenance t .exact start stop C := by
  intro p t
  have hp : p.topLevel ≠ [] := by simp [p, Pattern.topLevel, Head.isAnonymous, Part.head, Part.parts]
  refine ⟨hp, ?_, ?_⟩
  · exact ⟨_, rfl, rfl, (captures_provenance p t .exact hp).1 _ _ (.next .new) rfl⟩
  · obtain ⟨start, stop, h⟩ := (captures_provenance p t .exact hp).2 _ rfl
    exact ⟨_, start, stop, rfl, rfl, h⟩

end FormulaMatch
