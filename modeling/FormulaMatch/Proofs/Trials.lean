import FormulaMatch.Proofs.Hits

/-! The trials of a search. A search stops at the first place where a trial succeeds, and a candidate
is matched as a whole if a trial at any place succeeds. -/

namespace FormulaMatch

variable {options : Options} {ps : List Part} {queue left : List Node} {C : Captures} {start : Nat}
  {fault fault' : Option Fault} {hit : Hit}

theorem matchRun_nil (hp : ps ≠ []) : matchRun options ps [] = .unmatched := by
  cases ps with
  | nil => exact absurd rfl hp
  | cons p ps => simp [matchRun, matchParts]

theorem Outcome.isMatch_eq_false_iff {α : Type} {o : Outcome α} :
    o.isMatch = false ↔ ∀ a, o ≠ .matched a := by
  rw [← Bool.not_eq_true, Outcome.isMatch_iff, not_exists]

theorem lt_of_isMatch_matchRun (hp : ps ≠ [])
    (h : (matchRun options ps (queue.drop start)).isMatch = true) : start < queue.length := by
  by_contra hge
  rw [List.drop_eq_nil_of_le (by omega), matchRun_nil hp] at h
  simp [Outcome.isMatch] at h

theorem seek_least (h : seek options ps start fault queue = .ok hit) :
    start ≤ hit.start ∧
      ∀ k, start + k < hit.start → (matchRun options ps (queue.drop k)).isMatch = false := by
  induction queue generalizing start fault with
  | nil => simp [seek] at h
  | cons n rest ih =>
    rw [seek] at h
    split at h
    · simp at h
    · split at h
      · rw [Except.ok.injEq] at h
        subst h
        exact ⟨Nat.le_refl _, fun k hk => by simp only at hk; omega⟩
      · rename_i hfail
        obtain ⟨hle, hleast⟩ := ih h
        refine ⟨by omega, fun k hk => ?_⟩
        cases k with
        | zero => exact Outcome.isMatch_eq_false_iff.mpr fun result => hfail result.1 result.2
        | succ k => exact hleast k (by omega)

theorem seek_exhausted (h : seek options ps start fault queue = .error fault') {k : Nat}
    (hl : options.leading = true ∨ start + k = 0) (hk : k < queue.length) :
    (matchRun options ps (queue.drop k)).isMatch = false := by
  induction queue generalizing start fault k with
  | nil => simp at hk
  | cons n rest ih =>
    rw [seek] at h
    split at h
    · rename_i hgo
      simp only [Bool.and_eq_true, bne_iff_ne, ne_eq, Bool.not_eq_true'] at hgo
      rcases hl with hl | hl
      · simp [hl] at hgo
      · omega
    · split at h
      · simp at h
      · rename_i hfail
        cases k with
        | zero => exact Outcome.isMatch_eq_false_iff.mpr fun result => hfail result.1 result.2
        | succ k =>
          have hlead : options.leading = true := hl.resolve_right (by omega)
          exact ih h (.inl hlead) (by simpa using hk)

theorem seek_first (hp : ps ≠ []) (h : matchRun options ps queue = .matched (left, C)) :
    seek options ps 0 none queue = .ok ⟨0, queue.length - left.length, C⟩ := by
  cases queue with
  | nil => simp [matchRun_nil hp] at h
  | cons n rest => simp [seek, h]

variable {p : Pattern} {t : Tree}

/-- What evaluating and a first search find when the trial at the first place succeeds. -/
theorem first_of_matchRun (hp : p.topLevel ≠ [])
    (h : matchRun options p.topLevel t.topLevel = .matched (left, C)) :
    p.matchWhole t options = .matched C ∧
      (Search.new p t options).next.hit = some ⟨0, t.topLevel.length - left.length, C⟩ := by
  have he : p.topLevel.isEmpty = false := by simpa using hp
  have hs := seek_first hp h
  constructor
  · simp [Pattern.matchWhole, he, hs]
  · simp [Search.next, Search.new, he, hs]

theorem Hit.Holds.may_lead (h : hit.Holds options ps queue) :
    options.leading = true ∨ hit.start = 0 := by
  by_cases hl : options.leading = true
  · exact .inl hl
  · exact .inr (h.leading (by simpa using hl))

theorem Hit.Holds.may_follow (h : hit.Holds options ps queue) :
    options.following = true ∨ queue.drop hit.stop = [] := by
  by_cases hf : options.following = true
  · exact .inl hf
  · have hstop := h.following (by simpa using hf)
    exact .inr (by rw [hstop, List.drop_length])

theorem Hit.Holds.matchRun (h : hit.Holds options ps queue) :
    matchRun options ps (queue.drop hit.start) = .matched (queue.drop hit.stop, hit.captures) :=
  matchRun_eq_matched_iff.mpr ⟨h.run, h.may_follow⟩

theorem isMatch_matchWhole_iff (hp : p.topLevel ≠ []) :
    (p.matchWhole t options).isMatch = true ↔ ∃ start, (options.leading = true ∨ start = 0) ∧
      (FormulaMatch.matchRun options p.topLevel (t.topLevel.drop start)).isMatch = true := by
  constructor
  · intro h
    obtain ⟨C, hC⟩ := Outcome.isMatch_iff.mp h
    obtain ⟨hit, hh, -⟩ := holds_of_matchWhole hp hC
    exact ⟨hit.start, hh.may_lead, Outcome.isMatch_iff.mpr ⟨_, hh.matchRun⟩⟩
  · rintro ⟨start, hl, hm⟩
    have he : p.topLevel.isEmpty = false := by simpa using hp
    cases hs : seek options p.topLevel 0 none t.topLevel with
    | ok hit => simp [Pattern.matchWhole, he, hs, Outcome.isMatch]
    | error fault =>
      rw [seek_exhausted hs (by simpa using hl) (lt_of_isMatch_matchRun hp hm)] at hm
      simp at hm

end FormulaMatch
