import FormulaMatch.Character.Blank

/-! Cutting a text at its blank characters, and the number of bytes a text takes in UTF-8. -/

namespace FormulaMatch

/-- The runs of `cs` between blanks, where `word` is the run being read, last character first. -/
def wordsFrom (word : List Char) : List Char → List (List Char)
  | [] => if word.isEmpty then [] else [word.reverse]
  | c :: cs =>
    if isBlank c then
      if word.isEmpty then wordsFrom [] cs else word.reverse :: wordsFrom [] cs
    else wordsFrom (c :: word) cs

def words (cs : List Char) : List (List Char) := wordsFrom [] cs

theorem flatten_wordsFrom (word cs : List Char) :
    (wordsFrom word cs).flatten = word.reverse ++ cs.filter (fun c => !isBlank c) := by
  induction cs generalizing word with
  | nil => cases word <;> simp [wordsFrom]
  | cons c cs ih =>
    by_cases hc : isBlank c = true
    · cases word <;> simp [wordsFrom, hc, ih]
    · simp [wordsFrom, hc, ih]

theorem flatten_words (cs : List Char) :
    (words cs).flatten = cs.filter (fun c => !isBlank c) := by
  simp [words, flatten_wordsFrom]

def byteLength : List Char → Nat
  | [] => 0
  | c :: cs => c.utf8Size + byteLength cs

@[simp] theorem byteLength_append (cs ds : List Char) :
    byteLength (cs ++ ds) = byteLength cs + byteLength ds := by
  induction cs with
  | nil => simp [byteLength]
  | cons c cs ih => simp [byteLength, ih, Nat.add_assoc]

theorem byteLength_toList (s : String) : byteLength s.toList = s.utf8ByteSize := by
  rw [← String.ofList_toList (s := s)]
  simp only [String.toList_ofList]
  induction s.toList with
  | nil => simp [byteLength]
  | cons c cs ih =>
    rw [byteLength, ih, show c :: cs = [c] ++ cs from rfl, String.ofList_append,
      String.utf8ByteSize_append]
    simp

end FormulaMatch
