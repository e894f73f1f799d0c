import FormulaMatch.Match.Absorb
import Mathlib.Data.List.Forall2

/-! What a wildcard may pass over. The nodes it takes in are those that do not stop it, and their texts
alone decide which brackets wait. -/

namespace FormulaMatch

variable {options : Options} {next : Node → Outcome Captures} {stops stops' : Node → Bool}

/-- Whether a wildcard takes in the nodes, while `pending` waits, and may stop after them. -/
def Passes (options : Options) (stops : Node → Bool) (pending : Pending) : List Node → Prop
  | [] => pending.mustClose = false
  | n :: ns =>
    (pending.mustClose = false → stops n = false) ∧
    (isDivider n.text = true → pending ≠ []) ∧
    ∃ after, pending.track options n.text = .matched after ∧ Passes options stops after ns

theorem absorb_of_passes {pending : Pending} {taken left : List Node} {m : Node} {C : Captures}
    (hp : Passes options (fun n => (next n).isMatch) pending taken) (hm : next m = .matched C) :
    absorb options next pending (taken ++ m :: left) = .matched ⟨taken, m :: left, C⟩ := by
  induction taken generalizing pending with
  | nil =>
    have hclose : pending.mustClose = false := hp
    simp [absorb, hclose, hm, Outcome.value?]
  | cons n ns ih =>
    obtain ⟨hstop, hdiv, after, htrack, hrest⟩ := hp
    have hnone : (if pending.mustClose then none else (next n).value?) = none := by
      split
      · rfl
      · exact Outcome.value?_eq_none_iff.mpr (hstop (by simp_all))
    have hgo : ((ns ++ m :: left).isEmpty || (pending.isEmpty && isDivider n.text)) = false := by
      cases hd : isDivider n.text <;> simp_all
    rw [List.cons_append, absorb, hnone]
    simp only [hgo, Bool.false_eq_true, if_false, htrack, Outcome.bind_matched, ih hrest,
      Outcome.map]

theorem passes_of_absorb {pending : Pending} {queue : List Node} {run : Absorbed}
    (h : absorb options next pending queue = .matched run) :
    Passes options (fun n => (next n).isMatch) pending run.taken ∧
      ∃ m left, run.left = m :: left ∧ next m = .matched run.captures := by
  induction queue generalizing pending run with
  | nil => simp [absorb] at h
  | cons n rest ih =>
    rw [absorb] at h
    split at h
    · rename_i C hC
      cases h
      split at hC
      · simp at hC
      · exact ⟨by simp_all [Passes], n, rest, rfl, Outcome.value?_eq_some_iff.mp hC⟩
    · rename_i hnone
      split at h
      · simp at h
      · rename_i hgo
        obtain ⟨after, htrack, h⟩ := Outcome.bind_eq_matched_iff.1 h
        obtain ⟨more, hmore, h⟩ := Outcome.bind_eq_matched_iff.1 h
        cases h
        obtain ⟨hpass, hm⟩ := ih hmore
        refine ⟨⟨fun hclose => ?_, fun hd => ?_, after, htrack, hpass⟩, hm⟩
        · exact Outcome.value?_eq_none_iff.mp (by simpa [hclose] using hnone)
        · rintro rfl
          simp_all

theorem absorbFrom_of_passes {first m : Node} {before : List Node} {pending : Pending} {C : Captures}
    (hdiv : isDivider first.text = false)
    (htrack : Pending.track options [] first.text = .matched pending)
    (hp : Passes options (fun n => (next n).isMatch) pending before) (hm : next m = .matched C)
    (left : List Node) :
    absorbFrom options next first (before ++ m :: left) =
      .matched ⟨first :: before, m :: left, C⟩ := by
  have hgo : (isDivider first.text || (before ++ m :: left).isEmpty) = false := by simp [hdiv]
  simp only [absorbFrom, hgo, Bool.false_eq_true, if_false, htrack, Outcome.bind_matched,
    absorb_of_passes hp hm, Outcome.map]

/-- A wildcard takes in exactly the nodes before the first that stops it. -/
theorem absorbFrom_eq_matched_iff {first : Node} {queue : List Node} {run : Absorbed} :
    absorbFrom options next first queue = .matched run ↔
      isDivider first.text = false ∧ ∃ before m left pending,
        run.taken = first :: before ∧ run.left = m :: left ∧ queue = before ++ m :: left ∧
        next m = .matched run.captures ∧ Pending.track options [] first.text = .matched pending ∧
        Passes options (fun n => (next n).isMatch) pending before := by
  constructor
  · intro h
    unfold absorbFrom at h
    split at h
    · simp at h
    · rename_i hgo
      obtain ⟨pending, htrack, h⟩ := Outcome.bind_eq_matched_iff.1 h
      obtain ⟨more, hmore, h⟩ := Outcome.bind_eq_matched_iff.1 h
      cases h
      obtain ⟨hpass, m, left, hleft, hm⟩ := passes_of_absorb hmore
      refine ⟨by simp_all, more.taken, m, left, pending, rfl, hleft, ?_, hm, htrack, hpass⟩
      rw [← hleft, absorb_partition hmore]
  · rintro ⟨hdiv, before, m, left, pending, htaken, hleft, rfl, hm, htrack, hpass⟩
    obtain ⟨taken, left', C⟩ := run
    subst htaken hleft
    exact absorbFrom_of_passes hdiv htrack hpass hm left

/-- Nodes with the same texts are passed over as well if none of them stops the wildcard. -/
theorem Passes.transfer {pending : Pending} {ns ms : List Node}
    (h : Passes options stops pending ns)
    (hs : List.Forall₂ (fun n m => n.text = m.text ∧ (stops n = false → stops' m = false)) ns ms) :
    Passes options stops' pending ms := by
  induction hs generalizing pending with
  | nil => exact h
  | cons hnm _ ih =>
    obtain ⟨htext, hstop⟩ := hnm
    obtain ⟨hn, hdiv, after, htrack, hrest⟩ := h
    exact ⟨fun hc => hstop (hn hc), htext ▸ hdiv, after, htext ▸ htrack, ih hrest⟩

end FormulaMatch
