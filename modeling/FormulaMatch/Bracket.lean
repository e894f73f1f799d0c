/-! Brackets and the spellings of bracket tokens. Every other text is no bracket. -/

namespace FormulaMatch

inductive BracketFamily where
  | parenthesis
  | square
  | brace
  | escapedBrace
  | angle
  | ceil
  | floor
  | bar
  | doubleBar
  deriving DecidableEq, Repr

/-- A bar outside `\left` and `\right` both opens and closes. -/
inductive BracketSide where
  | opening
  | closing
  | symmetric
  deriving DecidableEq, Repr

/-- A bracket is sized when it is written with `\left` or `\right`. -/
structure Bracket where
  family : BracketFamily
  side : BracketSide
  sized : Bool
  deriving DecidableEq, Repr

def Bracket.spellings : List (String × Bracket) :=
  [("(", ⟨.parenthesis, .opening, false⟩),
   (")", ⟨.parenthesis, .closing, false⟩),
   ("[", ⟨.square, .opening, false⟩),
   ("]", ⟨.square, .closing, false⟩),
   ("\x7b", ⟨.brace, .opening, false⟩),
   ("\x7d", ⟨.brace, .closing, false⟩),
   ("\\\x7b", ⟨.escapedBrace, .opening, false⟩),
   ("\\\x7d", ⟨.escapedBrace, .closing, false⟩),
   ("\\langle", ⟨.angle, .opening, false⟩),
   ("\\rangle", ⟨.angle, .closing, false⟩),
   ("\\lceil", ⟨.ceil, .opening, false⟩),
   ("\\rceil", ⟨.ceil, .closing, false⟩),
   ("\\lfloor", ⟨.floor, .opening, false⟩),
   ("\\rfloor", ⟨.floor, .closing, false⟩),
   ("|", ⟨.bar, .symmetric, false⟩),
   ("\\|", ⟨.doubleBar, .symmetric, false⟩),
   ("\\left(", ⟨.parenthesis, .opening, true⟩),
   ("\\right)", ⟨.parenthesis, .closing, true⟩),
   ("\\left[", ⟨.square, .opening, true⟩),
   ("\\right]", ⟨.square, .closing, true⟩),
   ("\\left\\\x7b", ⟨.escapedBrace, .opening, true⟩),
   ("\\right\\\x7d", ⟨.escapedBrace, .closing, true⟩),
   ("\\left\\langle", ⟨.angle, .opening, true⟩),
   ("\\right\\rangle", ⟨.angle, .closing, true⟩),
   ("\\left|", ⟨.bar, .opening, true⟩),
   ("\\right|", ⟨.bar, .closing, true⟩),
   ("\\left\\|", ⟨.doubleBar, .opening, true⟩),
   ("\\right\\|", ⟨.doubleBar, .closing, true⟩)]

def Bracket.ofText? (text : String) : Option Bracket := spellings.lookup text

def Bracket.isOpening (b : Bracket) : Bool := b.side == .opening

def Bracket.isClosing (b : Bracket) : Bool := b.side == .closing

def Bracket.isSymmetric (b : Bracket) : Bool := b.side == .symmetric

/-- Whether `b` is closed by `c`: one family and one sizing, and either an opening bracket with a
closing one or two bars. -/
def Bracket.closedBy (b c : Bracket) : Bool :=
  ((b.isOpening && c.isClosing) || (b.isSymmetric && c.isSymmetric)) &&
    b.family == c.family && b.sized == c.sized

def BracketFamily.name : BracketFamily → String
  | .parenthesis => "Parenthesis"
  | .square => "Square"
  | .brace => "Brace"
  | .escapedBrace => "EscapedBrace"
  | .angle => "Angle"
  | .ceil => "Ceil"
  | .floor => "Floor"
  | .bar => "Bar"
  | .doubleBar => "DoubleBar"

def BracketSide.name : BracketSide → String
  | .opening => "opening"
  | .closing => "closing"
  | .symmetric => "symmetric"

def Bracket.describe (b : Bracket) : String :=
  (if b.sized then "sized " else "") ++ b.side.name ++ " " ++ b.family.name

theorem Bracket.mem_spellings_of_ofText? {text : String} {b : Bracket}
    (h : ofText? text = some b) : (text, b) ∈ spellings := by
  unfold ofText? at h
  obtain ⟨l₁, l₂, heq, _⟩ := List.lookup_eq_some_iff.1 h
  simp [heq]

end FormulaMatch
