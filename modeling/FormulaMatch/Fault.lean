/-! Why a pattern or a candidate cannot be matched, and why a text cannot be read. -/

namespace FormulaMatch

/-- The first two reject a pattern; the others arise while matching. -/
inductive Fault where
  | wildcardHasChildren (id : String)
  | adjacentWildcards (first second : String)
  | strayClosing (found : String)
  | crossedBrackets (found pending : String)
  | conflictingCapture (id : String)
  deriving DecidableEq, Repr

def Fault.inPattern : Fault → Bool
  | wildcardHasChildren _ | adjacentWildcards _ _ => true
  | strayClosing _ | crossedBrackets _ _ | conflictingCapture _ => false

def Fault.message : Fault → String
  | wildcardHasChildren id => "a wildcard node cannot have children (wildcard `" ++ id ++ "`)"
  | adjacentWildcards first second =>
    "two consecutive wildcards `" ++ first ++ "` and `" ++ second ++ "` have no unique matches"
  | strayClosing found => "closing bracket `" ++ found ++ "` has no opening bracket"
  | crossedBrackets found pending => "bracket `" ++ found ++ "` does not close `" ++ pending ++ "`"
  | conflictingCapture id =>
    "wildcard `" ++ id ++ "` captured a sequence inconsistent with its earlier capture"

/-- Why a text is not a formula; offsets count bytes of UTF-8. -/
inductive ReadError where
  | unclosedGroup (offset : Nat)
  | strayBrace (offset : Nat)
  | trailingBackslash (offset : Nat)
  deriving DecidableEq, Repr

def ReadError.offset : ReadError → Nat
  | unclosedGroup n | strayBrace n | trailingBackslash n => n

def ReadError.message : ReadError → String
  | unclosedGroup n => "unclosed group opened at byte " ++ n.repr
  | strayBrace n => "unexpected group close at byte " ++ n.repr
  | trailingBackslash n => "dangling backslash at byte " ++ n.repr

inductive PatternError where
  | unreadable (error : ReadError)
  | invalidWildcards (source detail : String)
  | unmatchable (fault : Fault)
  deriving DecidableEq, Repr

def PatternError.message : PatternError → String
  | unreadable error => "failed to parse pattern: " ++ error.message
  | invalidWildcards source detail => "invalid wildcard pattern `" ++ source ++ "`: " ++ detail
  | unmatchable fault => "pattern is not matchable: " ++ fault.message

def PatternError.fault? : PatternError → Option Fault
  | unmatchable fault => some fault
  | unreadable _ | invalidWildcards _ _ => none

end FormulaMatch
