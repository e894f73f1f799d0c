import FormulaMatch.Character.Range

/-! The 25 characters with the Unicode property White_Space. -/

namespace FormulaMatch

/-- Ranges of the property White_Space. -/
def blankTable : CharTable :=
  [(0x9, 0xD), (0x20, 0x20), (0x85, 0x85), (0xA0, 0xA0), (0x1680, 0x1680), (0x2000, 0x200A),
   (0x2028, 0x2029), (0x202F, 0x202F), (0x205F, 0x205F), (0x3000, 0x3000)]

def isBlank (c : Char) : Bool := blankTable.contains c

example : blankTable.foldl (fun n range => n + (range.2 + 1 - range.1)) 0 = 25 := by decide

end FormulaMatch
