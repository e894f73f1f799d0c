import FormulaMatch.Proofs.Nesting
import FormulaMatch.Proofs.Provenance
import FormulaMatch.Proofs.Spacing

/-! What a wildcard may take in before another part. Its brackets are well nested and its dividers stand
inside brackets or bars. Another occurrence of its name, even one at the end of a row, can only take
in a run with the same texts. -/

namespace FormulaMatch

open Captures (Entry)

/-- The texts of a run that a wildcard can take in before another part. -/
structure SafeRun (options : Options) (texts : List String) : Prop where
  start : ∀ text ∈ texts.head?, isDivider text = false
  nested : options.ignoreBrackets = false → WellNested (texts.filterMap Bracket.paired?)
  guarded : options.ignoreBrackets = false → ∀ before text after, texts = before ++ text :: after →
    before ≠ [] → isDivider text = true → ∃ bracket spelling rest,
      Pending.feedAll [] before = .matched ((bracket, spelling) :: rest) ∧
        Bracket.ofText? spelling = some bracket ∧ spelling ∈ before
  plain : options.ignoreBrackets = true → ∀ text ∈ texts, isDivider text = false

section Passing

variable {options : Options} {stops : Node → Bool} {pending : Pending} {ns before after : List Node}
  {n : Node}

theorem Passes.split (h : Passes options stops pending (before ++ after))
    (hb : options.ignoreBrackets = false) :
    ∃ waiting, pending.feedAll (before.map Formula.text) = .matched waiting ∧
      Passes options stops waiting after := by
  induction before generalizing pending with
  | nil => exact ⟨pending, rfl, h⟩
  | cons b before ih =>
    obtain ⟨-, -, more, htrack, hrest⟩ := h
    have hfeed : pending.feed b.text = .matched more := by simpa [Pending.track, hb] using htrack
    obtain ⟨waiting, hwaiting, hpass⟩ := ih hrest
    refine ⟨waiting, ?_, hpass⟩
    rw [List.map_cons, Pending.feedAll, hfeed, Outcome.bind_matched, hwaiting]

/-- Nothing waits when brackets are ignored, so no divider is passed over. -/
theorem Passes.isDivider_eq_false (h : Passes options stops [] ns)
    (hb : options.ignoreBrackets = true) : ∀ m ∈ ns, isDivider m.text = false := by
  induction ns with
  | nil => simp
  | cons n ns ih =>
    obtain ⟨-, hdiv, more, htrack, hrest⟩ := h
    have hmore : more = [] := by simpa [Pending.track, hb] using htrack.symm
    have hn : isDivider n.text = false := by
      by_contra hd
      exact hdiv (by simpa using hd) rfl
    exact List.forall_mem_cons.mpr ⟨hn, ih (hmore ▸ hrest)⟩

theorem Passes.wellNested (h : Passes options stops pending ns)
    (hb : options.ignoreBrackets = false) (hfeed : Pending.feed [] n.text = .matched pending) :
    WellNested (((n :: ns).map Formula.text).filterMap Bracket.paired?) := by
  rw [← List.append_nil ns] at h
  obtain ⟨last, hlast, hclose⟩ := h.split hb
  have hall : Pending.feedAll [] ((n :: ns).map Formula.text) = .matched last := by
    rw [List.map_cons, Pending.feedAll, hfeed, Outcome.bind_matched, hlast]
  exact Pending.closes_of_feedAll hall hclose

theorem Passes.guarded (h : Passes options stops pending ns) (hb : options.ignoreBrackets = false)
    (hfeed : Pending.feed [] n.text = .matched pending) {texts texts' : List String} {text : String}
    (hsplit : (n :: ns).map Formula.text = texts ++ text :: texts') (hne : texts ≠ [])
    (htext : isDivider text = true) :
    ∃ bracket spelling rest, Pending.feedAll [] texts = .matched ((bracket, spelling) :: rest) ∧
      Bracket.ofText? spelling = some bracket ∧ spelling ∈ texts := by
  obtain ⟨first, texts, rfl⟩ := List.exists_cons_of_ne_nil hne
  rw [List.map_cons, List.cons_append, List.cons.injEq] at hsplit
  obtain ⟨rfl, hsplit⟩ := hsplit
  obtain ⟨ms, tail, rfl, rfl, htail⟩ := List.map_eq_append_iff.mp hsplit
  obtain ⟨m, ms', rfl, rfl, -⟩ := List.map_eq_cons_iff.mp htail
  obtain ⟨waiting, hwaiting, -, hdiv, -⟩ := h.split hb
  obtain ⟨⟨bracket, spelling⟩, rest, rfl⟩ := List.exists_cons_of_ne_nil (hdiv htext)
  have hall : Pending.feedAll [] (n.text :: ms.map Formula.text) =
      .matched ((bracket, spelling) :: rest) := by
    rw [Pending.feedAll, hfeed, Outcome.bind_matched, hwaiting]
  have hfed := (Pending.mem_of_feedAll hall List.mem_cons_self).resolve_left List.not_mem_nil
  exact ⟨bracket, spelling, rest, hall, hfed⟩

theorem safeRun_of_passes (hd : isDivider n.text = false)
    (ht : Pending.track options [] n.text = .matched pending)
    (h : Passes options stops pending ns) : SafeRun options ((n :: ns).map Formula.text) := by
  have hfeed : options.ignoreBrackets = false → Pending.feed [] n.text = .matched pending := by
    intro hb
    simpa [Pending.track, hb] using ht
  refine ⟨by simpa using hd, fun hb => h.wellNested hb (hfeed hb),
    fun hb _ _ _ hsplit hne htext => h.guarded hb (hfeed hb) hsplit hne htext, fun hb => ?_⟩
  have hp : pending = [] := by simpa [Pending.track, hb] using ht.symm
  have hall := Passes.isDivider_eq_false (hp ▸ h) hb
  rw [List.map_cons, List.forall_mem_cons]
  exact ⟨hd, List.forall_mem_map.mpr hall⟩

end Passing

variable {options : Options} {ps : List Part} {next : Part} {name : String}
  {queue beyond : List Node} {C D : Captures} {taken : List Entry}

theorem Takes.exists_safeRun (h : Takes options ps queue C taken beyond D)
    (hf : Part.Followed ps name next) :
    ∃ run, (name, run) ∈ taken ∧ SafeRun options (run.map Formula.text) := by
  induction h with
  | nil => exact absurd hf Part.not_followed_nil
  | leaf _ _ _ ih =>
    rcases Part.followed_cons_iff.mp hf with ⟨_, _, _, hp, -⟩ | hf | hf
    · cases hp
    · exact absurd hf Part.not_followed_nil
    · exact ih hf
  | branch _ _ _ _ _ ihc ih =>
    rcases Part.followed_cons_iff.mp hf with ⟨_, _, _, hp, -⟩ | hf | hf
    · cases hp
    · obtain ⟨run, hrun, hsafe⟩ := ihc hf
      exact ⟨run, List.mem_append_left _ hrun, hsafe⟩
    · obtain ⟨run, hrun, hsafe⟩ := ih hf
      exact ⟨run, List.mem_append_right _ hrun, hsafe⟩
  | last =>
    rcases Part.followed_cons_iff.mp hf with ⟨_, _, _, -, -, hrest⟩ | hf | hf
    · cases hrest
    · exact absurd hf Part.not_followed_nil
    · exact absurd hf Part.not_followed_nil
  | stop start opened passes _ _ _ _ _ ih =>
    rcases Part.followed_cons_iff.mp hf with ⟨_, _, _, hp, rfl, -⟩ | hf | hf
    · cases hp
      exact ⟨_, List.mem_cons_self, safeRun_of_passes start opened passes⟩
    · exact absurd hf Part.not_followed_nil
    · obtain ⟨run, hrun, hsafe⟩ := ih hf
      exact ⟨run, List.mem_cons_of_mem _ hrun, hsafe⟩

theorem Takes.safeRun (h : Takes options ps queue .empty taken beyond D)
    (hf : Part.Followed ps name next) :
    ∃ run, D.get? name = some run ∧ SafeRun options (run.map Formula.text) := by
  obtain ⟨run, hrun, hsafe⟩ := h.exists_safeRun hf
  -- The run kept in the end is another one if the name occurs again, but has the same shape.
  obtain ⟨final, hfinal, hbare⟩ := Option.map_eq_some_iff.mp (h.shape? _ hrun)
  rw [← Formula.map_text_of_bare hbare] at hsafe
  exact ⟨final, hfinal, hsafe⟩

/-- Whenever a search has found a run, after any steps and restarts, and whenever a candidate is
matched as a whole, each wildcard that stands before another part anywhere in the pattern has
captured a safe run, wherever it occurs last. -/
theorem captured_runs_safe (p : Pattern) (t : Tree) (options : Options) {name : String} {next : Part}
    (hf : Part.Followed p.topLevel name next) :
    (∀ s hit, Search.Reached p t options s → s.hit = some hit →
      ∃ run, hit.captures.get? name = some run ∧ SafeRun options (run.map Formula.text)) ∧
    (∀ C, p.matchWhole t options = .matched C →
      ∃ run, C.get? name = some run ∧ SafeRun options (run.map Formula.text)) := by
  have hp : p.topLevel ≠ [] := by
    intro hnil
    rw [hnil] at hf
    exact Part.not_followed_nil hf
  have hall : ∀ hit : Hit, hit.Holds options p.topLevel t.topLevel →
      ∃ run, hit.captures.get? name = some run ∧ SafeRun options (run.map Formula.text) := by
    intro hit h
    obtain ⟨taken, ht⟩ := takes_of_matchParts h.run
    exact ht.safeRun hf
  constructor
  · intro s hit hs hh
    exact hall hit (hs.holds hh).2
  · intro C hC
    obtain ⟨hit, h, rfl⟩ := holds_of_matchWhole hp hC
    exact hall hit h

/-- The pattern `w = w` in `[ | ( a ) , ] = [ | ( a ) , ]`, where the second `w` could take in
anything: it is held to the first. -/
theorem captured_runs_safe_trailing :
    let p : Pattern := ⟨.literal 0 ⟨"", .sequence, .empty⟩ [.wildcard 1 ⟨"w", .letter, .empty⟩,
      .literal 2 ⟨"=", .operator, .empty⟩ [], .wildcard 3 ⟨"w", .letter, .empty⟩], []⟩
    let texts := ["[", "|", "(", "a", ")", ",", "]"]
    let t : Tree := .ofExpr (.sequence ((texts ++ "=" :: texts).map .leaf))
    Part.Followed p.topLevel "w" (.literal 2 ⟨"=", .operator, .empty⟩ []) ∧
    (∃ hit run, (Search.new p t .exact).next.hit = some hit ∧ hit.captures.get? "w" = some run ∧
      run.map Formula.label = [9, 10, 11, 12, 13, 14, 15] ∧ run.map Formula.text = texts ∧
      SafeRun .exact texts) ∧
    ∃ C run, p.matchWhole t .exact = .matched C ∧ C.get? "w" = some run ∧
      SafeRun .exact (run.map Formula.text) := by
  intro p texts t
  have hf : Part.Followed p.topLevel "w" (.literal 2 ⟨"=", .operator, .empty⟩ []) :=
    .head 1 ⟨"w", .letter, .empty⟩ _ _
  refine ⟨hf, ?_, ?_⟩
  · obtain ⟨run, hrun, hsafe⟩ := (captured_runs_safe p t .exact hf).1 _ _ (.next .new) rfl
    cases hrun
    exact ⟨_, _, rfl, rfl, rfl, rfl, hsafe⟩
  · obtain ⟨run, hrun, hsafe⟩ := (captured_runs_safe p t .exact hf).2 _ rfl
    exact ⟨_, run, rfl, hrun, hsafe⟩

end FormulaMatch
