import FormulaMatch.Match.Captures
import FormulaMatch.Match.Pending

/-! The run of siblings that a wildcard takes in before the part that follows it. The run ends at the
first node that the part matches while no bracket waits, and a comma, semicolon or full stop is
taken in only inside brackets or bars. -/

namespace FormulaMatch

/-- The nodes taken in, the nodes left, and what the part after the wildcard captured from the first
of these. -/
structure Absorbed where
  taken : List Node
  left : List Node
  captures : Captures

/-- Takes in nodes until `next` matches one, where `pending` waits from the nodes before. The last
node is never taken in, since `next` needs one. -/
def absorb (options : Options) (next : Node → Outcome Captures) (pending : Pending) :
    List Node → Outcome Absorbed
  | [] => .unmatched
  | n :: rest =>
    match if pending.mustClose then none else (next n).value? with
    | some captures => .matched { taken := [], left := n :: rest, captures }
    | none =>
      if rest.isEmpty || (pending.isEmpty && isDivider n.text) then .unmatched
      else
        (pending.track options n.text).bind fun pending =>
          (absorb options next pending rest).map fun run => { run with taken := n :: run.taken }

/-- Takes in `first`, which may not be a divider, and what follows it. -/
def absorbFrom (options : Options) (next : Node → Outcome Captures) (first : Node)
    (queue : List Node) : Outcome Absorbed :=
  if isDivider first.text || queue.isEmpty then .unmatched
  else
    (Pending.track options [] first.text).bind fun pending =>
      (absorb options next pending queue).map fun run => { run with taken := first :: run.taken }

theorem absorb_partition {options : Options} {next : Node → Outcome Captures} {pending : Pending}
    {queue : List Node} {run : Absorbed} (h : absorb options next pending queue = .matched run) :
    run.taken ++ run.left = queue := by
  induction queue generalizing pending run with
  | nil => simp [absorb] at h
  | cons n rest ih =>
    rw [absorb] at h
    split at h
    · cases h; rfl
    · split at h
      · simp at h
      · obtain ⟨after, _, h⟩ := Outcome.bind_eq_matched_iff.1 h
        obtain ⟨more, hmore, h⟩ := Outcome.bind_eq_matched_iff.1 h
        cases h
        simp [ih hmore]

theorem absorbFrom_partition {options : Options} {next : Node → Outcome Captures} {first : Node}
    {queue : List Node} {run : Absorbed}
    (h : absorbFrom options next first queue = .matched run) :
    run.taken ++ run.left = first :: queue := by
  unfold absorbFrom at h
  split at h
  · simp at h
  · obtain ⟨after, _, h⟩ := Outcome.bind_eq_matched_iff.1 h
    obtain ⟨more, hmore, h⟩ := Outcome.bind_eq_matched_iff.1 h
    cases h
    simp [absorb_partition hmore]

end FormulaMatch
