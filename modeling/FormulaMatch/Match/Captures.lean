import FormulaMatch.Match.Outcome
import FormulaMatch.Formula.Shape
import FormulaMatch.Formula.Render

/-! What wildcards have captured. A wildcard that occurs again has to capture a run of the same
shape, and then the later run stands. -/

namespace FormulaMatch

/-- The runs of sibling nodes that wildcards took in, by name. -/
abbrev Captures := NameMap (List Node)

abbrev Snapshot := NameMap (List Expr)

def Captures.assign (captures : Captures) (name : String) (run : List Node) : Outcome Captures :=
  match captures.get? name with
  | none => .matched (captures.insert name run)
  | some earlier =>
    if Formula.sameShapes earlier run then .matched (captures.insert name run)
    else .malformed (.conflictingCapture name)

def Captures.snapshot (captures : Captures) : Snapshot :=
  captures.map fun run => run.map Formula.unlabel

def Captures.strings (captures : Captures) : NameMap String := captures.map Formula.renderAll

def Snapshot.strings (snapshot : Snapshot) : NameMap String := snapshot.map Formula.renderAll

def Captures.text? (captures : Captures) (name : String) : Option String :=
  (captures.get? name).map Formula.renderAll

def Snapshot.text? (snapshot : Snapshot) (name : String) : Option String :=
  (snapshot.get? name).map Formula.renderAll

theorem Captures.assign_eq_matched_iff_sameShapes {captures after : Captures} {name : String}
    {run : List Node} : captures.assign name run = .matched after ↔
      (∀ earlier, captures.get? name = some earlier → Formula.sameShapes earlier run = true) ∧
        after = captures.insert name run := by
  unfold assign
  cases captures.get? name with
  | none => simpa using eq_comm
  | some earlier =>
    cases h : Formula.sameShapes earlier run with
    | true => simpa [h] using eq_comm
    | false => simp [h]

end FormulaMatch
