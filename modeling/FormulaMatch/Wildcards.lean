import FormulaMatch.Fault
import FormulaMatch.Regex.Library

/-! Which tokens are wildcards: those whose whole text a regular expression matches. -/

namespace FormulaMatch

/-- Without an expression nothing is a wildcard. -/
structure Recogniser (lib : RegexLibrary) where
  source : String
  regex : Option lib.Expression

namespace Recogniser

variable {lib : RegexLibrary}

def off : Recogniser lib := ⟨"", none⟩

def anchored (source : String) : String := "^(?:" ++ source ++ ")$"

variable (lib) in
/-- The recogniser for the text of an expression, where a blank text disables it. -/
def ofSource (source : String) : Except PatternError (Recogniser lib) :=
  if source.toList.all isBlank then .ok off
  else
    match lib.read (anchored source) with
    | .ok regex => .ok ⟨source, some regex⟩
    | .error message => .error (.invalidWildcards source message)

def isOn (w : Recogniser lib) : Bool := w.regex.isSome

def recognises (w : Recogniser lib) (text : String) : Bool :=
  match w.regex with
  | some regex => lib.isMatch regex text
  | none => false

end Recogniser

/-- Wildcards given by the expressions of this project. -/
abbrev Wildcards := Recogniser Regex.library

def Wildcards.ofSource (source : String) : Except PatternError Wildcards :=
  Recogniser.ofSource Regex.library source

end FormulaMatch
