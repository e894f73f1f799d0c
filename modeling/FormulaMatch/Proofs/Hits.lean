import FormulaMatch.Match.Search
import FormulaMatch.Proofs.Taken

/-! What it means that a search has found a run. Every trial starts from no captures, so the hits of a
search do not depend on the steps before. -/

namespace FormulaMatch

variable {options : Options} {ps : List Part}

/-- A hit of a search in `sequence`: its parts match from its first place on and leave what stands
after its last. -/
structure Hit.Holds (options : Options) (ps : List Part) (sequence : List Node) (hit : Hit) :
    Prop where
  start_lt : hit.start < sequence.length
  start_le : hit.start ≤ hit.stop
  stop_le : hit.stop ≤ sequence.length
  leading : options.leading = false → hit.start = 0
  following : options.following = false → hit.stop = sequence.length
  run : matchParts options ps (sequence.drop hit.start) .empty =
    .matched (sequence.drop hit.stop, hit.captures)

theorem matchRun_eq_matched_iff {queue left : List Node} {C : Captures} :
    matchRun options ps queue = .matched (left, C) ↔
      matchParts options ps queue .empty = .matched (left, C) ∧
        (options.following = true ∨ left = []) := by
  rw [matchRun, Outcome.bind_eq_matched_iff]
  constructor
  · rintro ⟨result, h, hg⟩
    obtain ⟨hl, rfl⟩ := Outcome.guard_eq_matched_iff.mp hg
    exact ⟨h, by simpa using hl⟩
  · rintro ⟨h, hl⟩
    exact ⟨_, h, Outcome.guard_eq_matched_iff.mpr ⟨by simpa using hl, rfl⟩⟩

theorem holds_of_seek {sequence queue : List Node} {start : Nat} {fault : Option Fault} {hit : Hit}
    (h : seek options ps start fault queue = .ok hit) (hq : sequence.drop start = queue) :
    hit.Holds options ps sequence := by
  induction queue generalizing start fault with
  | nil => simp [seek] at h
  | cons n rest ih =>
    have hlen := congrArg List.length hq
    simp only [List.length_drop, List.length_cons] at hlen
    rw [seek] at h
    split at h
    · simp at h
    · rename_i hgo
      split at h
      · rename_i left C hrun
        obtain ⟨hparts, hleft⟩ := matchRun_eq_matched_iff.mp hrun
        obtain ⟨taken, ht⟩ := takes_of_matchParts hparts
        obtain ⟨used, hused⟩ := ht.suffix
        have hl := congrArg List.length hused
        simp only [List.length_cons, List.length_append] at hl
        have hstop : (n :: rest).length - left.length = used.length := by
          simp only [List.length_cons]
          omega
        have hdrop : sequence.drop (start + used.length) = left := by
          rw [← List.drop_drop, hq, hused, List.drop_left]
        rw [hstop, Except.ok.injEq] at h
        subst h
        constructor <;> dsimp only
        · omega
        · omega
        · omega
        · intro hlead
          by_contra hne
          simp [hlead, hne] at hgo
        · intro hfol
          have hnil : left = [] := hleft.resolve_left (by simp [hfol])
          subst hnil
          simp only [List.length_nil] at hl
          omega
        · rw [hdrop, hq]
          exact hparts
      · exact ih h (by rw [← List.drop_drop, hq, List.drop_one, List.tail_cons])

theorem ne_nil_of_matchParts {queue left : List Node} {C D : Captures} (hp : ps ≠ [])
    (h : matchParts options ps queue C = .matched (left, D)) : queue ≠ [] := by
  rintro rfl
  cases ps with
  | nil => exact hp rfl
  | cons p ps => simp [matchParts] at h

theorem seek_of_matchParts {queue : List Node} {D : Captures} (hq : queue ≠ [])
    (h : matchParts options ps queue .empty = .matched ([], D)) :
    seek options ps 0 none queue = .ok ⟨0, queue.length, D⟩ := by
  obtain ⟨n, rest, rfl⟩ := List.exists_cons_of_ne_nil hq
  have hrun : matchRun options ps (n :: rest) = .matched ([], D) :=
    matchRun_eq_matched_iff.mpr ⟨h, .inr rfl⟩
  simp [seek, hrun]

theorem Hit.Holds.take_drop {sequence used : List Node} {hit : Hit}
    (h : hit.Holds options ps sequence)
    (hused : sequence.drop hit.start = used ++ sequence.drop hit.stop) :
    (sequence.drop hit.start).take (hit.stop - hit.start) = used := by
  have hlen := congrArg List.length hused
  simp only [List.length_append, List.length_drop] at hlen
  have hl : hit.stop - hit.start = used.length := by
    have := h.start_le
    have := h.stop_le
    omega
  rw [hused, hl, List.take_left]

inductive Search.Reached (p : Pattern) (t : Tree) (options : Options) : Search → Prop
  | new : Reached p t options (.new p t options)
  | next {s} : Reached p t options s → Reached p t options s.next
  | restart {s} : Reached p t options s → Reached p t options s.restart

variable {p : Pattern} {t : Tree} {s : Search}

theorem Search.Reached.unchanged (h : Reached p t options s) :
    s.pattern = p ∧ s.options = options ∧ s.sequence = t.topLevel := by
  induction h with
  | new => exact ⟨rfl, rfl, rfl⟩
  | next _ ih =>
    unfold Search.next
    split
    · exact ih
    · split <;> exact ih
  | restart _ ih => exact ih

theorem Search.Reached.holds (h : Reached p t options s) {hit : Hit} (hh : s.hit = some hit) :
    p.topLevel ≠ [] ∧ hit.Holds options p.topLevel t.topLevel := by
  cases h with
  | new => simp [Search.new] at hh
  | restart _ => simp [Search.restart] at hh
  | @next s h =>
    obtain ⟨rfl, rfl, hseq⟩ := h.unchanged
    unfold Search.next at hh
    split at hh
    · simp at hh
    · rename_i hne
      split at hh
      · rename_i found hs
        simp only [Option.some.injEq] at hh
        subst hh
        exact ⟨by simpa using hne, holds_of_seek hs (by rw [hseq])⟩
      · simp at hh

theorem holds_of_matchWhole {C : Captures} (hp : p.topLevel ≠ [])
    (h : p.matchWhole t options = .matched C) :
    ∃ hit : Hit, hit.Holds options p.topLevel t.topLevel ∧ hit.captures = C := by
  unfold Pattern.matchWhole at h
  split at h
  · simp_all
  · split at h
    · rename_i hit hs
      exact ⟨hit, holds_of_seek hs rfl, by simpa using h⟩
    · rename_i fault _
      cases fault <;> simp [Outcome.ofFault?] at h

theorem matchWhole_of_topLevel_eq_nil {C : Captures} (hp : p.topLevel = [])
    (h : p.matchWhole t options = .matched C) : t.topLevel = [] ∧ C = .empty := by
  unfold Pattern.matchWhole at h
  simp only [hp, List.isEmpty_nil, if_true, Outcome.guard_eq_matched_iff] at h
  exact ⟨by simpa using h.1, h.2.symm⟩

end FormulaMatch
