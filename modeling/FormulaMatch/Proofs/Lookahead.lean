import FormulaMatch.Proofs.Mirroring
import FormulaMatch.Proofs.Taken

/-! A part that has matched a node matches it again once its captures are held, and takes in the same
runs. A trial on an earlier node that failed with fewer captures could only succeed with runs of
the same shapes, and with such runs it would have succeeded before. -/

namespace FormulaMatch

open Captures (Entry)

variable {options : Options} {ps : List Part} {queue queue₁ queue₂ beyond beyond₁ beyond₂ : List Node}
  {C C₁ C₂ D D₁ D₂ E E' : Captures} {taken taken₁ taken₂ : List Entry}

theorem Takes.shape?_start (h₂ : Takes options ps queue₂ C₂ taken₂ beyond₂ D₂) (hE : D₂.HeldBy E)
    (h₁ : Takes options ps queue₁ E taken₁ beyond₁ E') :
    ∀ entry ∈ taken₁, E.shape? entry.1 = some (entry.2.map Formula.bare) := by
  intro entry he
  have hn : entry.1 ∈ Part.names ps := h₁.names ▸ List.mem_map_of_mem he
  obtain ⟨run, hrun⟩ := h₂.exists_entry hn
  have hs := hE.shape? (h₂.shape? _ hrun)
  have hs' := h₁.heldBy.shape? hs
  rw [h₁.shape? entry he] at hs'
  rw [hs, hs']

theorem Takes.heldBy_end (h₁ : Takes options ps queue₁ C₁ taken₁ beyond₁ D₁)
    (h₂ : Takes options ps queue₂ C₂ taken₂ beyond₂ D₂) (hC : C₁.HeldBy C₂) (hE₁ : D₁.HeldBy E)
    (hE₂ : D₂.HeldBy E) : D₁.HeldBy D₂ := by
  refine Captures.heldBy_iff.mpr fun name s hs => ?_
  rcases h₁.shape?_or hs with hs' | hn
  · exact h₂.heldBy.shape? (hC.shape? hs')
  · obtain ⟨run, hrun⟩ := h₂.exists_entry hn
    have hs₂ := h₂.shape? _ hrun
    have he := hE₂.shape? hs₂
    rw [hE₁.shape? hs, Option.some.injEq] at he
    exact he ▸ hs₂

/-- A match with runs that are held starts and ends like the match whose outcome is held. -/
theorem Takes.alike_end (h₂ : Takes options ps queue₂ C₂ taken₂ beyond₂ D₂) (hE : D₂.HeldBy E)
    (h₁ : Takes options ps queue₁ E taken₁ beyond₁ E')
    (hC : C₁.Alike C₂)
    (h : Takes options ps queue₁ C₁ taken₁ beyond₁ D₁) :
    D₁.HeldBy E ∧ D₁.Alike D₂ := by
  have hstart := hC.heldBy.trans (h₂.heldBy.trans hE)
  have hE₁ := h.heldBy_of hstart (h₂.shape?_start hE h₁)
  exact ⟨hE₁, (h.heldBy_end h₂ hC.heldBy hE₁ hE).alike (h₂.heldBy_end h hC.symm.heldBy hE hE₁)⟩

theorem Passes.of_shape {next : Part} {pending : Pending} {ns ms : List Node}
    (h : Passes options (fun x => (matchPart options next x C₂).isMatch) pending ns)
    (hs : ns.map Formula.bare = ms.map Formula.bare)
    (hC : C₁.Alike C₂) :
    Passes options (fun x => (matchPart options next x C₁).isMatch) pending ms := by
  refine h.transfer ((forall₂_bare_iff.mpr hs).imp fun n m hnm => ⟨?_, fun hn => ?_⟩)
  · simpa using congrArg Formula.text hnm
  · rw [← hn, isMatch_matchPart_eq hnm hC.symm]

/-- If the parts match one row and, with captures that hold the outcome, another row as well, then
they match the other row from the start, with the same runs. -/
theorem Takes.recover (h₂ : Takes options ps queue₂ C₂ taken₂ beyond₂ D₂) (hE : D₂.HeldBy E)
    (h₁ : Takes options ps queue₁ E taken₁ beyond₁ E')
    (hC : C₁.Alike C₂) :
    ∃ D₁, Takes options ps queue₁ C₁ taken₁ beyond₁ D₁ := by
  -- Along the way `E` only grows and `C₁` stays alike to `C₂`, so every run has the shape held in `E`.
  induction h₂ generalizing queue₁ C₁ E taken₁ beyond₁ E' with
  | nil =>
    cases h₁
    exact ⟨C₁, .nil _ _⟩
  | leaf _ _ _ ih =>
    cases h₁ with
    | leaf text leaf tail =>
      obtain ⟨D₁, h⟩ := ih hE tail hC
      exact ⟨D₁, .leaf text leaf h⟩
    | branch _ parts => exact absurd rfl parts
  | branch _ parts₂ children₂ _ tail₂ ihc ih =>
    cases h₁ with
    | leaf => exact absurd rfl parts₂
    | branch text parts children extra_ok tail =>
      have hinner := tail₂.heldBy.trans hE
      obtain ⟨C', hc⟩ := ihc hinner children hC
      have hC' := (children₂.alike_end hinner children hC hc).2
      obtain ⟨D₁, h⟩ := ih (hE.trans children.heldBy) tail hC'
      exact ⟨D₁, .branch text parts hc extra_ok h⟩
  | last assigned₂ =>
    have hstart := hC.heldBy.trans ((Captures.HeldBy.of_assign assigned₂).trans hE)
    have hheld := (@Takes.last options _ _ _ _ _ _ assigned₂).shape?_start hE h₁
    cases h₁ with
    | last assigned => exact ⟨_, .last (hstart.assign (hheld _ List.mem_cons_self)).1⟩
  | stop start₂ opened₂ passes₂ stops₂ looked₂ assigned₂ tail₂ ihl ih =>
    have hafter := tail₂.heldBy.trans hE
    have hahead := (Captures.HeldBy.of_assign assigned₂).trans hafter
    have hrun₂ := hafter.shape? (Captures.shape?_of_assign assigned₂)
    cases h₁ with
    | stop start opened passes stops looked assigned tail =>
      have hrun := (looked.heldBy.trans (.of_assign assigned)).shape? hrun₂
      rw [Captures.shape?_of_assign assigned, Option.some.injEq] at hrun
      rw [← hrun] at hrun₂
      obtain ⟨hfirst, hbefore⟩ := List.cons.inj hrun
      obtain ⟨F, hl⟩ := ihl hahead looked hC
      obtain ⟨hF, hF'⟩ := looked₂.alike_end hahead looked hC hl
      have hassign := (hF.assign hrun₂).1
      have hopened := opened₂
      rw [← Formula.text_bare, ← hfirst, Formula.text_bare, opened] at hopened
      cases hopened
      obtain ⟨D₁, h⟩ := ih (hE.trans (looked.heldBy.trans (.of_assign assigned))) tail
        (hF'.of_assign hassign assigned₂ hrun)
      exact ⟨D₁, .stop start opened (passes₂.of_shape hbefore.symm hC)
        ((matchPart_eq_matched_iff (isWildcard_of_matchPart stops)).mpr ⟨_, hl⟩) hl hassign h⟩

/-- What the parts have matched, they match again from captures that hold the outcome. -/
theorem Takes.again (h : Takes options ps queue C taken beyond D) (hE : D.HeldBy E) :
    ∃ E', Takes options ps queue E taken beyond E' := by
  induction h generalizing E with
  | nil => exact ⟨E, .nil _ _⟩
  | leaf text leaf _ ih =>
    obtain ⟨E', h⟩ := ih hE
    exact ⟨E', .leaf text leaf h⟩
  | branch text parts _ extra_ok tail ihc ih =>
    obtain ⟨F, hc⟩ := ihc (tail.heldBy.trans hE)
    obtain ⟨E', h⟩ := ih (hE.trans hc.heldBy)
    exact ⟨E', .branch text parts hc extra_ok h⟩
  | last assigned =>
    exact ⟨_, .last ((Captures.HeldBy.refl E).assign
      (hE.shape? (Captures.shape?_of_assign assigned))).1⟩
  | @stop _ _ next _ _ before _ _ _ pending _ _ _ _ _ _ start opened passes stops looked assigned
      tail ihl ih =>
    have hafter := tail.heldBy.trans hE
    have hahead := (Captures.HeldBy.of_assign assigned).trans hafter
    have hlit := isWildcard_of_matchPart stops
    obtain ⟨F, hl⟩ := ihl hahead
    -- No node in between stops the wildcard now: it would have done so with fewer captures.
    have hpass : Passes options (fun x => (matchPart options next x E).isMatch) pending before := by
      refine passes.transfer (List.forall₂_same.mpr fun x _ => ⟨rfl, fun hx => ?_⟩)
      refine Bool.eq_false_iff.mpr fun hm => ?_
      obtain ⟨E'', hm⟩ := Outcome.isMatch_iff.mp hm
      obtain ⟨_, hm⟩ := (matchPart_eq_matched_iff hlit).mp hm
      obtain ⟨_, hm⟩ := looked.recover hahead hm fun _ => rfl
      rw [(matchPart_eq_matched_iff hlit).mpr ⟨_, hm⟩] at hx
      simp [Outcome.isMatch] at hx
    have hrun := hl.heldBy.shape? (hafter.shape? (Captures.shape?_of_assign assigned))
    have hassign := ((Captures.HeldBy.refl F).assign hrun).1
    obtain ⟨E', h⟩ := ih (hE.trans (hl.heldBy.trans (.of_assign hassign)))
    exact ⟨E', .stop start opened hpass ((matchPart_eq_matched_iff hlit).mpr ⟨_, hl⟩) hl hassign h⟩

theorem Takes.unique (h : Takes options ps queue C taken beyond D)
    (h' : Takes options ps queue C taken₁ beyond₁ D₁) : taken = taken₁ ∧ beyond = beyond₁ ∧ D = D₁ := by
  have hend : beyond = beyond₁ ∧ D = D₁ := by
    have he := h.matchParts.symm.trans h'.matchParts
    simpa using he
  refine ⟨?_, hend⟩
  clear hend
  induction h generalizing taken₁ beyond₁ D₁ with
  | nil => cases h'; rfl
  | leaf _ _ _ ih =>
    cases h' with
    | leaf _ _ tail => exact ih tail
    | branch _ parts => exact absurd rfl parts
  | branch _ parts children _ _ ihc ih =>
    cases h' with
    | leaf => exact absurd rfl parts
    | branch _ _ children' _ tail =>
      have he := children.matchParts.symm.trans children'.matchParts
      simp only [Outcome.matched.injEq, Prod.mk.injEq] at he
      obtain ⟨rfl, rfl⟩ := he
      rw [ihc children', ih tail]
  | last => cases h'; rfl
  | stop start opened passes stops _ assigned _ _ ih =>
    have hrun := absorbFrom_of_passes start opened passes stops
    generalize hq : _ ++ _ :: _ = queue' at h'
    cases h' with
    | @stop _ _ _ _ _ _ _ left' _ _ _ _ _ _ _ _ start' opened' passes' stops' _ assigned' tail =>
      have hrun' := absorbFrom_of_passes start' opened' passes' stops' left'
      rw [← hq, hrun] at hrun'
      simp only [Outcome.matched.injEq, Absorbed.mk.injEq, List.cons.injEq, true_and] at hrun'
      obtain ⟨rfl, ⟨rfl, rfl⟩, rfl⟩ := hrun'
      rw [assigned, Outcome.matched.injEq] at assigned'
      subst assigned'
      rw [ih tail]

theorem Takes.cons_inv {p : Part} {rest : List Part} {n : Node} (hp : p.isWildcard = false)
    (h : Takes options (p :: rest) (n :: queue) C taken beyond D) :
    ∃ first more C', Takes options [p] [n] C first [] C' ∧
      Takes options rest queue C' more beyond D ∧ taken = first ++ more := by
  cases h with
  | leaf text leaf tail => exact ⟨[], _, _, .leaf text leaf (.nil _ _), tail, rfl⟩
  | branch text parts children extra_ok tail =>
    exact ⟨_ ++ [], _, _, .branch text parts children extra_ok (.nil _ _), tail, by simp⟩
  | last => simp [Part.isWildcard] at hp
  | stop => simp [Part.isWildcard] at hp

/-- The captures at the end are those at the start with the runs of all occurrences written over
them in order, whatever was written while looking ahead. -/
theorem Takes.eq_record (h : Takes options ps queue C taken beyond D) : D = C.record taken := by
  induction h with
  | nil => rfl
  | leaf _ _ _ ih => exact ih
  | branch _ _ _ _ _ ihc ih => rw [ih, ihc, Captures.record_append]
  | last assigned => exact (Captures.assign_eq_matched_iff.mp assigned).2
  | stop _ _ _ stops looked assigned tail ihl ih =>
    obtain ⟨first, more, C', hfirst, _, rfl⟩ := tail.cons_inv (isWildcard_of_matchPart stops)
    obtain ⟨C'', hagain⟩ := looked.again (.of_assign assigned)
    obtain ⟨rfl, -, -⟩ := hfirst.unique hagain
    rw [Captures.record_cons, ih, (Captures.assign_eq_matched_iff.mp assigned).2, ihl,
      Captures.record_insert_record]

theorem matchPart_again {p : Part} {n : Node} (h : matchPart options p n C = .matched D)
    (hE : D.HeldBy E) : ∃ taken E', matchPart options p n E = .matched E' ∧
      Takes options [p] [n] C taken [] D ∧ Takes options [p] [n] E taken [] E' := by
  have hlit := isWildcard_of_matchPart h
  obtain ⟨taken, ht⟩ := (matchPart_eq_matched_iff hlit).mp h
  obtain ⟨E', ht'⟩ := ht.again hE
  exact ⟨taken, E', (matchPart_eq_matched_iff hlit).mpr ⟨taken, ht'⟩, ht, ht'⟩

theorem matchParts_of_matchPart {p : Part} {rest : List Part} {n : Node}
    (h : matchPart options p n C = .matched D) :
    matchParts options (p :: rest) (n :: queue) C = matchParts options rest queue D := by
  cases p with
  | wildcard i hd => simp [matchPart] at h
  | literal i hd ps => rw [matchParts, h, Outcome.bind_matched]

/-- A part that has matched a node from `C` and captured `D` matches it again from all captures that
hold runs of the same shapes, and every wildcard in it takes in the same nodes. So the part before
which a wildcard has stopped always matches there when its turn comes, unless the wildcard's own
run is in conflict. -/
theorem lookahead_honoured (options : Options) (p : Part) :
    (∀ n C D E, matchPart options p n C = .matched D → D.HeldBy E →
      ∃ taken E', matchPart options p n E = .matched E' ∧
        Takes options [p] [n] C taken [] D ∧ Takes options [p] [n] E taken [] E' ∧
        taken.map Prod.fst = Part.names [p] ∧ D = C.record taken ∧ E' = E.record taken) ∧
    (∀ i h n queue C run C₂,
      absorbFrom options (fun m => matchPart options p m C) n queue = .matched run →
      run.captures.assign h.text run.taken = .matched C₂ →
      ∃ m left taken C₃, run.left = m :: left ∧ matchPart options p m C₂ = .matched C₃ ∧
        Takes options [p] [m] C taken [] run.captures ∧ Takes options [p] [m] C₂ taken [] C₃ ∧
        ∀ rest, matchParts options (.wildcard i h :: p :: rest) (n :: queue) C =
          matchParts options rest left C₃) := by
  constructor
  · intro n C D E h hE
    obtain ⟨taken, E', h', ht, ht'⟩ := matchPart_again h hE
    exact ⟨taken, E', h', ht, ht', ht.names, ht.eq_record, ht'.eq_record⟩
  · intro i hd n queue C run C₂ hrun hassign
    obtain ⟨-, -, m, left, -, -, hleft, -, hm, -, -⟩ := absorbFrom_eq_matched_iff.mp hrun
    obtain ⟨taken, C₃, h', ht, ht'⟩ := matchPart_again hm (.of_assign hassign)
    refine ⟨m, left, taken, C₃, hleft, h', ht, ht', fun rest => ?_⟩
    rw [matchParts, hrun, Outcome.bind_matched, hassign, Outcome.bind_matched, hleft,
      matchParts_of_matchPart h']

/-- The part `f(w x)` on the node `f(a b x)`, again from captures that hold another `a b`, and
after a wildcard that has stopped there. -/
theorem lookahead_honoured_application :
    let p : Part := .literal 0 ⟨"f", .function, .empty⟩
      [.wildcard 1 ⟨"w", .letter, .empty⟩, .literal 2 ⟨"x", .letter, .empty⟩ []]
    let n := (Expr.application "f" [.leaf "a", .leaf "b", .leaf "x"]).numberFrom 1
    let other := [(Expr.leaf "a").numberFrom 8, (Expr.leaf "b").numberFrom 9]
    let held : Captures := NameMap.insert (NameMap.insert .empty "v" [n]) "w" other
    (∃ taken E', matchPart .exact p n held = .matched E' ∧ taken.map Prod.fst = ["w"] ∧
      E' = held.record taken) ∧
    ∃ m left C₃, [n] = m :: left ∧ matchPart .exact p m
      (NameMap.insert (NameMap.insert .empty "w" (n.children.take 2)) "v"
        [(Expr.leaf "z").numberFrom 0]) = .matched C₃ := by
  intro p n other held
  have hheld : Captures.HeldBy (NameMap.insert .empty "w" (n.children.take 2)) held :=
    ((Captures.empty_heldBy held).assign rfl).2
  constructor
  · obtain ⟨taken, E', h, -, -, hnames, -, hrecord⟩ :=
      (lookahead_honoured .exact p).1 n .empty _ held rfl hheld
    exact ⟨taken, E', h, hnames, hrecord⟩
  · obtain ⟨m, left, -, C₃, hleft, h, -⟩ := (lookahead_honoured .exact p).2 3
      ⟨"v", .letter, .empty⟩ ((Expr.leaf "z").numberFrom 0) [n] .empty
      ⟨[(Expr.leaf "z").numberFrom 0], [n], NameMap.insert .empty "w" (n.children.take 2)⟩ _
      rfl rfl
    exact ⟨m, left, C₃, hleft, h⟩

end FormulaMatch
