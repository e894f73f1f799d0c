/-! Sets of characters given by tables of inclusive ranges of code points. -/

namespace FormulaMatch

/-- Inclusive ranges of code points, in increasing order. -/
abbrev CharTable := List (Nat × Nat)

def CharTable.contains (table : CharTable) (c : Char) : Bool :=
  table.any fun range => range.1 ≤ c.toNat && c.toNat ≤ range.2

theorem CharTable.contains_iff {table : CharTable} {c : Char} :
    table.contains c = true ↔ ∃ range ∈ table, range.1 ≤ c.toNat ∧ c.toNat ≤ range.2 := by
  simp [contains]

def isAscii (c : Char) : Bool := c.toNat < 128

end FormulaMatch
