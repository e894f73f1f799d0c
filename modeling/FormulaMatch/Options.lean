/-! What a match tolerates. -/

namespace FormulaMatch

/-- By default a match covers the whole candidate and brackets are respected. -/
structure Options where
  /-- Tokens may stand before the match. -/
  leading : Bool := false
  /-- Tokens may stand after the match. -/
  following : Bool := false
  /-- A wildcard may stop inside a bracket. -/
  ignoreBrackets : Bool := false
  deriving DecidableEq, Repr

def Options.exact : Options := ⟨false, false, false⟩

/-- Any run of the candidate may match. -/
def Options.lenient : Options := ⟨true, true, false⟩

def Options.withLeading (options : Options) (on : Bool) : Options := { options with leading := on }

def Options.withFollowing (options : Options) (on : Bool) : Options :=
  { options with following := on }

def Options.withIgnoredBrackets (options : Options) (on : Bool) : Options :=
  { options with ignoreBrackets := on }

def Options.isExact (options : Options) : Bool := !options.leading && !options.following

end FormulaMatch
