import FormulaMatch.Character.Alphabetic
import FormulaMatch.Character.Number
import FormulaMatch.Character.Mark

/-! Characters that make up words: those of a token, and the wider class of regular expressions. -/

namespace FormulaMatch

def isAlphanumeric (c : Char) : Bool := isAlphabetic c || isNumber c

def isWordChar (c : Char) : Bool :=
  isAlphabetic c || isMark c || isDecimal c || isConnector c || isJoiner c

theorem isAlphanumeric_of_isAlphanum {c : Char} (h : c.isAlphanum = true) :
    isAlphanumeric c = true := by
  have hlt : isAscii c = true := by
    delta Char.isAlphanum Char.isAlpha Char.isUpper Char.isLower Char.isDigit at h
    simp only [Bool.or_eq_true, Bool.and_eq_true, decide_eq_true_eq, UInt32.le_iff_toNat_le] at h
    simp only [isAscii, decide_eq_true_eq, Char.toNat]
    rcases h with (⟨_, h⟩ | ⟨_, h⟩) | ⟨_, h⟩ <;> exact Nat.lt_of_le_of_lt h (by decide)
  delta Char.isAlphanum at h
  simpa [isAlphanumeric, isAlphabetic, isNumber, hlt] using h

end FormulaMatch
