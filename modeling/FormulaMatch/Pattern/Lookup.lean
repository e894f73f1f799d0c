import FormulaMatch.Pattern.Basic

/-! Finding the parts of a pattern by their numbers, with their parents and siblings, which are those that
a `PatternArena` stores. -/

namespace FormulaMatch.Pattern

def allParts (p : Pattern) : List Part := Part.preorders (p.root :: p.detached)

def size (p : Pattern) : Nat := p.allParts.length

def part? (p : Pattern) (id : Nat) : Option Part := p.allParts.find? fun q => q.id == id

def parent? (p : Pattern) (id : Nat) : Option Part :=
  p.allParts.find? fun q => q.parts.any fun child => child.id == id

def nextSibling? (p : Pattern) (id : Nat) : Option Part :=
  match p.parent? id with
  | some parent => ((parent.parts.dropWhile fun child => child.id != id).drop 1).head?
  | none => none

def partsInOrder (p : Pattern) : List Part := (List.range p.size).filterMap p.part?

end FormulaMatch.Pattern
