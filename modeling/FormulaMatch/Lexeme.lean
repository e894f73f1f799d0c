import FormulaMatch.Character.Word
import FormulaMatch.Text.Words

/-! The tokens and braces of plain TeX math. Blanks separate tokens; a run of letters and digits is
one token; a backslash takes the letters or the one other character after it; `\left` and `\right`
also take the delimiter that follows; any other character is a token of its own. -/

namespace FormulaMatch

/-- Braces carry the byte at which they stand, and so does a backslash with nothing after it. -/
inductive Lexeme where
  | token (text : List Char)
  | opening (offset : Nat)
  | closing (offset : Nat)
  | dangling (offset : Nat)
  deriving DecidableEq, Repr

/-- The token being read. Its characters are held last first. -/
inductive Scan where
  | between
  | word (seen : List Char)
  /-- A command whose last character is a backslash. -/
  | escape (seen : List Char)
  | name (seen : List Char)
  /-- A command that ends in `\left` or `\right` and still takes a delimiter. -/
  | sizing (seen : List Char)
  deriving DecidableEq, Repr

/-- Whether a command, last character first, ends in `\left` or `\right`. -/
def endsInSizing (seen : List Char) : Bool :=
  "tfel\\".toList.isPrefixOf seen || "thgir\\".toList.isPrefixOf seen

def isNameChar (c : Char) : Bool := c.isAlpha

def Scan.start (offset : Nat) (c : Char) : List Lexeme × Scan :=
  if isBlank c then ([], between)
  else if c == '{' then ([.opening offset], between)
  else if c == '}' then ([.closing offset], between)
  else if c == '\\' then ([], escape [c])
  else if isAlphanumeric c then ([], word [c])
  else ([.token [c]], between)

def Scan.finish (seen : List Char) (offset : Nat) (c : Char) : List Lexeme × Scan :=
  let (lexemes, state) := start offset c
  (.token seen.reverse :: lexemes, state)

/-- Reads `c` while the command `seen` takes a delimiter. -/
def Scan.delimit (seen : List Char) (offset : Nat) (c : Char) : List Lexeme × Scan :=
  if isBlank c then ([], sizing seen)
  else if c == '\\' then ([], escape (c :: seen))
  else if isAlphanumeric c || c == '{' || c == '}' then finish seen offset c
  else ([.token (c :: seen).reverse], between)

/-- Reads `c`, which stands at byte `offset`: the lexemes that are now complete, and what is left
to complete. -/
def Scan.step (offset : Nat) (c : Char) : Scan → List Lexeme × Scan
  | between => start offset c
  | word seen => if isAlphanumeric c then ([], word (c :: seen)) else finish seen offset c
  | escape seen =>
    if isNameChar c then ([], name (c :: seen)) else ([.token (c :: seen).reverse], between)
  | name seen =>
    if isNameChar c then ([], name (c :: seen))
    else if endsInSizing seen then delimit seen offset c
    else finish seen offset c
  | sizing seen => delimit seen offset c

def Scan.stop (offset : Nat) : Scan → List Lexeme
  | between => []
  | word seen | name seen | sizing seen => [.token seen.reverse]
  | escape _ => [.dangling (offset - 1)]

def Scan.run (state : Scan) (offset : Nat) : List Char → List Lexeme
  | [] => state.stop offset
  | c :: cs =>
    let (lexemes, next) := state.step offset c
    lexemes ++ next.run (offset + c.utf8Size) cs

def lexemes (cs : List Char) : List Lexeme := Scan.between.run 0 cs

@[simp] theorem Scan.run_nil (state : Scan) (offset : Nat) : state.run offset [] = state.stop offset :=
  rfl

theorem Scan.run_cons (state : Scan) (offset : Nat) (c : Char) (cs : List Char) :
    state.run offset (c :: cs) =
      (state.step offset c).1 ++ (state.step offset c).2.run (offset + c.utf8Size) cs := rfl

end FormulaMatch
