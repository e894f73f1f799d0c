import FormulaMatch.Bracket
import FormulaMatch.Options
import FormulaMatch.Match.Outcome

/-! Brackets that a wildcard has taken in and that wait to be closed. Bars are soft: a closing
bracket discards the bars that wait above its counterpart, and a waiting bar does not keep a
wildcard from stopping. -/

namespace FormulaMatch

/-- Waiting brackets with their spellings, the innermost first. -/
abbrev Pending := List (Bracket × String)

namespace Pending

/-- Whether a bracket other than a bar waits. -/
def mustClose (pending : Pending) : Bool := pending.any fun entry => !entry.1.isSymmetric

/-- Closes the innermost waiting bracket, bars apart. -/
def feedClosing (pending : Pending) (bracket : Bracket) (text : String) : Outcome Pending :=
  match pending.dropWhile fun entry => entry.1.isSymmetric with
  | [] => .malformed (.strayClosing text)
  | (top, spelling) :: rest =>
    if top.closedBy bracket then .matched rest else .malformed (.crossedBrackets text spelling)

/-- Closes a waiting bar of the same kind if that is innermost, and lets the bar wait otherwise. -/
def feedBar (pending : Pending) (bracket : Bracket) (text : String) : Pending :=
  match pending with
  | [] => [(bracket, text)]
  | (top, spelling) :: rest =>
    if top.closedBy bracket then rest else (bracket, text) :: (top, spelling) :: rest

def feed (pending : Pending) (text : String) : Outcome Pending :=
  match Bracket.ofText? text with
  | none => .matched pending
  | some bracket =>
    match bracket.side with
    | .opening => .matched ((bracket, text) :: pending)
    | .symmetric => .matched (pending.feedBar bracket text)
    | .closing => pending.feedClosing bracket text

/-- What waits after a token; nothing ever waits when brackets are ignored. -/
def track (options : Options) (pending : Pending) (text : String) : Outcome Pending :=
  if options.ignoreBrackets then .matched pending else pending.feed text

end Pending

end FormulaMatch
