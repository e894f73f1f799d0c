import FormulaMatch.Regex.Reading

/-! What is asked of regular expressions: to read them, and to search texts for what they match. The
recogniser of wildcards takes any library that offers this; the expressions of this project are one. -/

namespace FormulaMatch

structure RegexLibrary where
  Expression : Type
  /-- The expression that a text writes, or a message that says why it writes none. -/
  read : String → Except String Expression
  /-- Whether the expression matches anywhere in a text. -/
  isMatch : Expression → String → Bool

abbrev Regex.library : RegexLibrary where
  Expression := Regex
  read text := (Regex.read text.toList).mapError RegexError.message
  isMatch := Regex.isMatch

end FormulaMatch
