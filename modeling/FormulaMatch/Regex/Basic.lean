import FormulaMatch.Regex.CharSet

/-! Regular expressions and their matches. A match is followed through the ends of the text: from the
ends at which an expression may begin to those at which it may stop. -/

namespace FormulaMatch

/-- Whether a repetition prefers many or few rounds has no bearing on whether there is a match. -/
inductive Regex where
  | empty
  | one (ignoreCase : Bool) (set : CharSet)
  | textStart
  | textEnd
  | concat (r s : Regex)
  | either (r s : Regex)
  | repeated (least : Nat) (most : Option Nat) (r : Regex)
  deriving DecidableEq, Repr

def suffixes {α : Type} : List α → List (List α)
  | [] => [[]]
  | a :: as => (a :: as) :: suffixes as

/-- `f` applied `n` times, as long as anything is left. -/
def iterate {α : Type} (f : List α → List α) : Nat → List α → List α
  | 0, ends => ends
  | n + 1, ends => if ends.isEmpty then [] else iterate f n (f ends)

/-- What `f` reaches in at most `n` rounds, until a round reaches nothing new. -/
def closure {α : Type} [BEq α] (f : List α → List α) : Nat → List α → List α
  | 0, ends => ends
  | n + 1, ends =>
    let fresh := (f ends).filter fun a => !ends.contains a
    if fresh.isEmpty then ends else closure f n (ends ++ fresh)

/-- The ends of `whole` at which the expression may stop when it may begin at `ends`. More rounds than
there are ends reach nothing new. -/
def Regex.advance (whole : List Char) : Regex → List (List Char) → List (List Char)
  | .empty, ends => ends
  | .one ignoreCase set, ends =>
    ends.filterMap fun
      | [] => none
      | c :: cs => if set.contains ignoreCase c then some cs else none
  | .textStart, ends => ends.filter fun cs => cs.length == whole.length
  | .textEnd, ends => ends.filter List.isEmpty
  | .concat r s, ends => s.advance whole (r.advance whole ends)
  | .either r s, ends => (r.advance whole ends ++ s.advance whole ends).eraseDups
  | .repeated least most r, ends =>
    let rounds := whole.length + 1
    closure (r.advance whole)
      (match most with
        | some most => min (most - least) rounds
        | none => rounds)
      (iterate (fun ends => (r.advance whole ends).eraseDups) least ends)

def Regex.isMatch (r : Regex) (text : String) : Bool :=
  !(r.advance text.toList (suffixes text.toList)).isEmpty

end FormulaMatch
