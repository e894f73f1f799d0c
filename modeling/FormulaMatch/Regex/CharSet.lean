import FormulaMatch.Character.Blank
import FormulaMatch.Character.CaseFold
import FormulaMatch.Character.Letter
import FormulaMatch.Character.Word

/-! The sets of characters that a regular expression can name. -/

namespace FormulaMatch

inductive CharProperty where
  | blank
  | word
  | decimal
  | number
  | letter
  | mark
  | alphabetic
  deriving DecidableEq, Repr

def CharProperty.holds : CharProperty → Char → Bool
  | blank => isBlank
  | word => isWordChar
  | decimal => isDecimal
  | number => isNumber
  | letter => isLetter
  | mark => isMark
  | alphabetic => isAlphabetic

/-- Names are compared without regard to case, blanks, hyphens and underscores. -/
def CharProperty.ofName? (name : List Char) : Option CharProperty :=
  let plain := (name.filter fun c => !(c == ' ' || c == '_' || c == '-')).map Char.toLower
  [("whitespace", blank), ("space", blank), ("nd", decimal), ("decimalnumber", decimal),
   ("n", number), ("number", number), ("l", letter), ("letter", letter), ("m", mark),
   ("mark", mark), ("alphabetic", alphabetic), ("alpha", alphabetic)].lookup (String.ofList plain)

inductive SetItem where
  | range (first last : Char)
  | property (property : CharProperty) (negated : Bool)
  deriving DecidableEq, Repr

/-- The characters that belong to some item, or, in a negated set, to none. -/
structure CharSet where
  items : List SetItem
  negated : Bool
  deriving DecidableEq, Repr

def spellings (ignoreCase : Bool) (c : Char) : List Char :=
  if ignoreCase then caseVariants c else [c]

def SetItem.contains (ignoreCase : Bool) (c : Char) : SetItem → Bool
  | range first last => (spellings ignoreCase c).any fun d => first ≤ d && d ≤ last
  | property p negated => negated != (spellings ignoreCase c).any p.holds

def CharSet.contains (set : CharSet) (ignoreCase : Bool) (c : Char) : Bool :=
  set.negated != set.items.any fun item => item.contains ignoreCase c

namespace CharSet

def single (c : Char) : CharSet := ⟨[.range c c], false⟩

def ofProperty (p : CharProperty) (negated : Bool) : CharSet := ⟨[.property p false], negated⟩

def all : CharSet := ⟨[], true⟩

def notLineFeed : CharSet := ⟨[.range '\n' '\n'], true⟩

end CharSet

end FormulaMatch
