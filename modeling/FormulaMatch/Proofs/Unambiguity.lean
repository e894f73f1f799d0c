import FormulaMatch.Proofs.Absorption

/-! Runs that a wildcard takes in as a whole. What may stand in such a run is said by the brackets that
wait before each of its nodes. -/

namespace FormulaMatch

namespace Pending

def feedAll (pending : Pending) : List String → Outcome Pending
  | [] => .matched pending
  | text :: texts => (pending.feed text).bind fun after => after.feedAll texts

theorem feedAll_append (pending : Pending) (texts more : List String) :
    pending.feedAll (texts ++ more) =
      (pending.feedAll texts).bind fun after => after.feedAll more := by
  induction texts generalizing pending with
  | nil => rfl
  | cons text texts ih =>
    rw [List.cons_append, feedAll, feedAll]
    cases pending.feed text with
    | matched after => exact ih after
    | unmatched => rfl
    | malformed fault => rfl

theorem feedAll_concat {pending after : Pending} {texts : List String}
    (h : pending.feedAll texts = .matched after) (text : String) :
    pending.feedAll (texts ++ [text]) = after.feed text := by
  rw [feedAll_append, h, Outcome.bind_matched, feedAll]
  cases after.feed text <;> rfl

end Pending

/-- A run in which a wildcard cannot stop early when the text `next` stands after it: its brackets
are balanced, and outside of them neither `next` nor, outside of bars as well, a divider occurs. -/
structure Unambiguous (next : String) (run : List Expr) : Prop where
  start : ∀ r ∈ run.head?, isDivider r.text = false
  balanced : ∃ pending, Pending.feedAll [] (run.map Formula.text) = .matched pending ∧
    pending.mustClose = false
  passed : ∀ before r after pending, run = before ++ r :: after → before ≠ [] →
    Pending.feedAll [] (before.map Formula.text) = .matched pending →
    pending.mustClose = false → r.text ≠ next
  nested : ∀ before r after pending, run = before ++ r :: after → before ≠ [] →
    Pending.feedAll [] (before.map Formula.text) = .matched pending →
    isDivider r.text = true → pending ≠ []

variable {options : Options} {next : String} {run before : List Expr} {ns : List Node}
  {stops : Node → Bool}

theorem Unambiguous.feed (h : Unambiguous next run) {r : Expr} {after : List Expr}
    (hrun : run = before ++ r :: after) {pending : Pending}
    (hp : Pending.feedAll [] (before.map Formula.text) = .matched pending) :
    ∃ more, pending.feed r.text = .matched more ∧
      Pending.feedAll [] ((before ++ [r]).map Formula.text) = .matched more := by
  obtain ⟨last, hlast, -⟩ := h.balanced
  rw [hrun, List.map_append, Pending.feedAll_append, hp, Outcome.bind_matched, List.map_cons,
    Pending.feedAll] at hlast
  obtain ⟨more, hmore, -⟩ := Outcome.bind_eq_matched_iff.mp hlast
  refine ⟨more, hmore, ?_⟩
  rw [List.map_append, List.map_singleton, Pending.feedAll_concat hp, hmore]

theorem Unambiguous.passes (h : Unambiguous next run) (hb : options.ignoreBrackets = false)
    (hs : ∀ n, n.text ≠ next → stops n = false) (hrun : run = before ++ ns.map Formula.unlabel)
    (hne : before ≠ []) {pending : Pending}
    (hp : Pending.feedAll [] (before.map Formula.text) = .matched pending) :
    Passes options stops pending ns := by
  induction ns generalizing before pending with
  | nil =>
    obtain ⟨last, hlast, hclose⟩ := h.balanced
    rw [hrun, List.map_nil, List.append_nil, hp, Outcome.matched.injEq] at hlast
    exact hlast ▸ hclose
  | cons n ns ih =>
    rw [List.map_cons] at hrun
    obtain ⟨more, hfeed, hmore⟩ := h.feed hrun hp
    rw [Formula.text_unlabel] at hfeed
    refine ⟨fun hc => hs n ?_, fun hd => ?_, more, ?_, ih (by simp [hrun]) (by simp) hmore⟩
    · simpa using h.passed _ _ _ _ hrun hne hp hc
    · exact h.nested _ _ _ _ hrun hne hp (by simpa using hd)
    · simp [Pending.track, hb, hfeed]

theorem Unambiguous.start_passes {n : Node} (h : Unambiguous next run)
    (hb : options.ignoreBrackets = false) (hs : ∀ m, m.text ≠ next → stops m = false)
    (hrun : run = (n :: ns).map Formula.unlabel) :
    isDivider n.text = false ∧ ∃ pending,
      Pending.track options [] n.text = .matched pending ∧ Passes options stops pending ns := by
  have hsplit : run = [] ++ n.unlabel :: ns.map Formula.unlabel := hrun
  obtain ⟨pending, hfeed, hp⟩ := h.feed hsplit rfl
  refine ⟨?_, pending, ?_, h.passes hb hs hrun (List.cons_ne_nil _ _) hp⟩
  · simpa using h.start n.unlabel (by simp [hrun])
  · simpa [Pending.track, hb] using hfeed

end FormulaMatch
