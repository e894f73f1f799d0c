import FormulaMatch.Text.Quoted
import FormulaMatch.Tree
import FormulaMatch.Wildcards

/-! One-line descriptions for people who look for errors. -/

namespace FormulaMatch

def describeNode (n : Node) : String :=
  "Node \x7b id: NodeId(" ++ n.label.repr ++ "), text: " ++ quoted n.text ++ ", tag: " ++
    n.tag.title ++ ", children: " ++ n.children.length.repr ++ " \x7d"

def Wildcards.describe (w : Wildcards) : String := "WildcardPattern(" ++ quoted w.source ++ ")"

end FormulaMatch
