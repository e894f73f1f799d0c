import FormulaMatch.Match.Absorb
import FormulaMatch.Pattern.Basic

/-! Matching parts against nodes. Parts are matched from left to right against the front of a queue of
siblings; a failure carries the fault of the step that failed, and faults met while a wildcard
looks ahead are forgotten. -/

namespace FormulaMatch

mutual

/-- Matches a literal against one node. A literal without parts matches leaves only. -/
def matchPart (options : Options) : Part → Node → Captures → Outcome Captures
  | .wildcard _ _, _, _ => .unmatched
  | .literal _ h ps, n, captures =>
    if h.text != n.text then .unmatched
    else if ps.isEmpty then .guard n.isLeaf captures
    else
      (matchParts options ps n.children captures).bind fun result =>
        .guard (options.following || result.1.isEmpty) result.2

/-- Matches parts against the front of a queue: the nodes left and what was captured. A wildcard
before another part lets that part match again where it stopped. -/
def matchParts (options : Options) :
    List Part → List Node → Captures → Outcome (List Node × Captures)
  | [], queue, captures => .matched (queue, captures)
  | _ :: _, [], _ => .unmatched
  | .literal i h ps :: rest, n :: queue, captures =>
    (matchPart options (.literal i h ps) n captures).bind fun captures =>
      matchParts options rest queue captures
  | [.wildcard _ h], n :: queue, captures =>
    (captures.assign h.text (n :: queue)).map fun captures => ([], captures)
  | .wildcard _ h :: next :: rest, n :: queue, captures =>
    (absorbFrom options (fun m => matchPart options next m captures) n queue).bind fun run =>
      (run.captures.assign h.text run.taken).bind fun captures =>
        matchParts options (next :: rest) run.left captures

end

/-- Matches parts against a queue that they have to use up unless tokens may follow. -/
def matchRun (options : Options) (ps : List Part) (queue : List Node) :
    Outcome (List Node × Captures) :=
  (matchParts options ps queue .empty).bind fun result =>
    .guard (options.following || result.1.isEmpty) result

/-- Matches the root of a pattern against a node before `queue`: what of the queue is left, and the
outcome. A wildcard takes the whole queue. -/
def Pattern.matchRoot (p : Pattern) (options : Options) (n : Node) (queue : List Node) :
    List Node × Outcome Captures :=
  match p.root with
  | .wildcard _ h => ([], Captures.assign .empty h.text (n :: queue))
  | .literal i h ps => (queue, matchPart options (.literal i h ps) n .empty)

end FormulaMatch
