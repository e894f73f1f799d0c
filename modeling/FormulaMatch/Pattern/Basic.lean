import FormulaMatch.Fault
import FormulaMatch.Tree

/-! Patterns. A part of a pattern is a literal, which stands for a node with its text, or a
wildcard, which stands for a run of siblings. A source tree becomes a pattern if no wildcard has
children and no two wildcards stand side by side. Here a part holds those below it; `PatternArena` keeps
them by number with stored links, and `Proofs.Refinement` and `Proofs.Stepping` show that both answer alike. -/

namespace FormulaMatch

/-- A part keeps the number and the head of the node it was made from. -/
inductive Part where
  | literal (id : Nat) (head : Head) (parts : List Part)
  | wildcard (id : Nat) (head : Head)

namespace Part

def id : Part → Nat
  | literal i _ _ => i
  | wildcard i _ => i

def head : Part → Head
  | literal _ h _ => h
  | wildcard _ h => h

def text (p : Part) : String := p.head.text

def parts : Part → List Part
  | literal _ _ ps => ps
  | wildcard _ _ => []

def isWildcard : Part → Bool
  | literal _ _ _ => false
  | wildcard _ _ => true

def wildcardName? : Part → Option String
  | literal _ _ _ => none
  | wildcard _ h => some h.text

@[elab_as_elim]
theorem induction {P : Part → Prop} (literal : ∀ i h ps, (∀ p ∈ ps, P p) → P (.literal i h ps))
    (wildcard : ∀ i h, P (.wildcard i h)) (p : Part) : P p :=
  @Part.rec P (fun ps => ∀ p ∈ ps, P p) literal wildcard (by simp)
    (fun _ _ hd htl => List.forall_mem_cons.2 ⟨hd, htl⟩) p

mutual

def preorder : Part → List Part
  | .literal i h ps => .literal i h ps :: preorders ps
  | .wildcard i h => [.wildcard i h]

def preorders : List Part → List Part
  | [] => []
  | p :: ps => p.preorder ++ preorders ps

end

theorem preorders_eq_flatMap (ps : List Part) : preorders ps = ps.flatMap preorder := by
  induction ps with
  | nil => rfl
  | cons p ps ih => simp [preorders, ih]

mutual

def ofNode (recognises : String → Bool) : Node → Except Fault Part
  | .node i h cs =>
    if recognises h.text then
      if cs.isEmpty then .ok (.wildcard i h) else .error (.wildcardHasChildren h.text)
    else
      match ofSiblings recognises none cs with
      | .ok ps => .ok (.literal i h ps)
      | .error fault => .error fault

/-- The parts that siblings become, where `left` names the wildcard just before them, if any. -/
def ofSiblings (recognises : String → Bool) (left : Option String) :
    List Node → Except Fault (List Part)
  | [] => .ok []
  | c :: cs =>
    match ofNode recognises c with
    | .error fault => .error fault
    | .ok p =>
      match left, p.wildcardName? with
      | some first, some second => .error (.adjacentWildcards first second)
      | _, name =>
        match ofSiblings recognises name cs with
        | .ok ps => .ok (p :: ps)
        | .error fault => .error fault

end

end Part

/-- The parts that can be reached from the root, and those that were cut off. -/
structure Pattern where
  root : Part
  detached : List Part := []

namespace Pattern

def ofTree (recognises : String → Bool) (source : Tree) : Except Fault Pattern :=
  match Part.ofNode recognises source.root with
  | .ok root => .ok { root }
  | .error fault => .error fault

/-- The parts of the root if it is a bare sequence, and the root alone otherwise. -/
def topLevel (p : Pattern) : List Part :=
  if p.root.head.isAnonymous .sequence then p.root.parts else [p.root]

/-- The names of the wildcards that can be reached, each where it occurs first. -/
def wildcardNames (p : Pattern) : List String :=
  (p.root.preorder.filterMap Part.wildcardName?).eraseDups

end Pattern

end FormulaMatch
