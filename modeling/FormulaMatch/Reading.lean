import FormulaMatch.Lexeme
import FormulaMatch.Formula.Basic
import FormulaMatch.Fault

/-! Reading a text as a formula: its tokens and brace groups in one bare sequence. The first fault
of the text in reading order is reported, an open brace only at the end. -/

namespace FormulaMatch

/-- Groups that are open around the items being read: where each begins, and the items before it,
last first. -/
abbrev OpenGroups := List (Nat × List Expr)

/-- The sequence that lexemes complete, after `items`, last first, and inside `outer`. -/
def assemble (items : List Expr) (outer : OpenGroups) : List Lexeme → Except ReadError Expr
  | [] =>
    match outer with
    | [] => .ok (.sequence items.reverse)
    | (offset, _) :: _ => .error (.unclosedGroup offset)
  | .token text :: rest => assemble (.leaf (String.ofList text) :: items) outer rest
  | .opening offset :: rest => assemble [] ((offset, items) :: outer) rest
  | .closing offset :: rest =>
    match outer with
    | [] => .error (.strayBrace offset)
    | (_, before) :: outer => assemble (.group items.reverse :: before) outer rest
  | .dangling offset :: _ => .error (.trailingBackslash offset)

def Expr.read (text : String) : Except ReadError Expr := assemble [] [] (lexemes text.toList)

end FormulaMatch
