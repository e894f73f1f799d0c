import FormulaMatch.Match.Search
import FormulaMatch.Reader
import FormulaMatch.Wildcards

/-! A pattern with the way its candidates are read, and the captures of its last match. Every match
starts by forgetting them. -/

namespace FormulaMatch

structure Session where
  reader : Reader
  pattern : Pattern
  captures : Snapshot := .empty

namespace Session

def ofTree (reader : Reader) (source : Tree) (wildcards : Wildcards) :
    Except PatternError Session :=
  match Pattern.ofTree wildcards.recognises source with
  | .ok pattern => .ok { reader, pattern }
  | .error fault => .error (.unmatchable fault)

/-- A session for the text of a pattern and the expression that tells its wildcards. The text is read
first, then the expression. -/
def ofText (reader : Reader) (text wildcards : String) : Except PatternError Session :=
  match reader.readNormal text with
  | .error e => .error (.unreadable e)
  | .ok source =>
    match Wildcards.ofSource wildcards with
    | .error e => .error e
    | .ok wildcards => ofTree reader (.ofExpr source) wildcards

def candidate (s : Session) (text : String) : Except PatternError Tree :=
  match s.reader.readNormal text with
  | .ok e => .ok (.ofExpr e)
  | .error e => .error (.unreadable e)

/-- Whether the normal form of a tree matches, and the session that holds what it captured. -/
def matchTree (s : Session) (e : Expr) (options : Options) : Bool × Session :=
  match s.pattern.matchWhole (.ofExpr (s.reader.normalize e)) options with
  | .matched captures => (true, { s with captures := captures.snapshot })
  | .unmatched | .malformed _ => (false, { s with captures := .empty })

/-- Whether a text matches. A text that cannot be read does not. -/
def matchText (s : Session) (text : String) (options : Options) : Bool × Session :=
  match s.reader.read text with
  | .ok e => s.matchTree e options
  | .error _ => (false, { s with captures := .empty })

end Session

end FormulaMatch
