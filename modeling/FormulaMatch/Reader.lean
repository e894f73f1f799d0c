import FormulaMatch.Formula.NormalForm
import FormulaMatch.Reading
import FormulaMatch.Tree

/-! Ways of turning texts into formulas. -/

namespace FormulaMatch

structure Reader where
  read : String → Except ReadError Expr
  normalize : Expr → Expr

namespace Reader

/-- Plain TeX math, with repeated braces dropped. -/
def tex : Reader := ⟨Expr.read, Formula.normalize⟩

/-- Tokens between blanks, as they stand. -/
def blankSeparated : Reader := ⟨fun text => .ok (Expr.tokens text), id⟩

def readNormal (r : Reader) (text : String) : Except ReadError Expr := (r.read text).map r.normalize

end Reader

end FormulaMatch
