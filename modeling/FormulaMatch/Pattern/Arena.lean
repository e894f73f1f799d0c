import FormulaMatch.Fault
import FormulaMatch.Tree

/-! Patterns as they are stored: a row of slots in which parts are known by their places. A slot keeps the
numbers of its children in order, and its own parent and place among the siblings. A slot is appended
before those of its children are, and its children are entered when they are known; cutting off a first
child moves the others one place to the left. -/

namespace FormulaMatch

inductive SlotKind where
  | literal (children : List Nat)
  | wildcard (name : String)
  deriving DecidableEq, Repr

structure Slot where
  head : Head
  kind : SlotKind
  parent : Option Nat
  position : Nat
  deriving DecidableEq

namespace Slot

def children (s : Slot) : List Nat :=
  match s.kind with
  | .literal ids => ids
  | .wildcard _ => []

def wildcardName? (s : Slot) : Option String :=
  match s.kind with
  | .literal _ => none
  | .wildcard name => some name

def isWildcard (s : Slot) : Bool := s.wildcardName?.isSome

end Slot

structure PatternArena where
  slots : List Slot
  root : Nat

mutual

/-- The slots with those of the node behind them, and its number. -/
def buildSlot (recognises : String → Bool) (slots : List Slot) (parent : Option Nat) (position : Nat) :
    Node → Except Fault (List Slot × Nat)
  | .node _ h cs =>
    let id := slots.length
    if recognises h.text then
      if cs.isEmpty then .ok (slots ++ [⟨h, .wildcard h.text, parent, position⟩], id)
      else .error (.wildcardHasChildren h.text)
    else
      match buildChildren recognises (slots ++ [⟨h, .literal [], parent, position⟩]) id 0 none cs with
      | .ok (slots, children) =>
        .ok (slots.modify id fun s => { s with kind := .literal children }, id)
      | .error fault => .error fault

/-- The same for siblings, where `left` names the wildcard just before them, if any. -/
def buildChildren (recognises : String → Bool) (slots : List Slot) (owner position : Nat)
    (left : Option String) : List Node → Except Fault (List Slot × List Nat)
  | [] => .ok (slots, [])
  | c :: cs =>
    match buildSlot recognises slots (some owner) position c with
    | .error fault => .error fault
    | .ok (slots, id) =>
      match left, slots[id]?.bind Slot.wildcardName? with
      | some first, some second => .error (.adjacentWildcards first second)
      | _, name =>
        match buildChildren recognises slots owner (position + 1) name cs with
        | .ok (slots, ids) => .ok (slots, id :: ids)
        | .error fault => .error fault

end

/-- Gives the slots of these numbers the places from `position` on. -/
def placeFrom (position : Nat) : List Nat → List Slot → List Slot
  | [], slots => slots
  | id :: ids, slots => placeFrom (position + 1) ids (slots.modify id fun s => { s with position })

namespace PatternArena

def ofTree (recognises : String → Bool) (source : Tree) : Except Fault PatternArena :=
  match buildSlot recognises [] none 0 source.root with
  | .ok (slots, root) => .ok { slots, root }
  | .error fault => .error fault

def size (a : PatternArena) : Nat := a.slots.length

def slot? (a : PatternArena) (id : Nat) : Option Slot := a.slots[id]?

def children (a : PatternArena) (id : Nat) : List Nat := ((a.slot? id).map Slot.children).getD []

def isWildcard (a : PatternArena) (id : Nat) : Bool := (a.slot? id).any Slot.isWildcard

/-- The entry behind a slot's own place in the list of its parent's children. -/
def nextSibling? (a : PatternArena) (id : Nat) : Option Nat :=
  (a.slot? id).bind fun s => s.parent.bind fun owner => (a.slot? owner).bind fun parent =>
    parent.children[s.position + 1]?

/-- The children of the root if it is a bare sequence, and the root alone otherwise. -/
def topLevel (a : PatternArena) : List Nat :=
  if (a.slot? a.root).any fun s => s.head.isAnonymous .sequence then a.children a.root else [a.root]

/-- Visits the slots that wait and those below them, and adds the names of wildcards that are new. -/
def visit (a : PatternArena) : (fuel : Nat) → (pending : List Nat) → List String → List String
  | 0, _, names => names
  | _ + 1, [], names => names
  | fuel + 1, id :: pending, names =>
    match a.slot? id with
    | none => a.visit fuel pending names
    | some s =>
      a.visit fuel (s.children ++ pending)
        (match s.wildcardName? with
        | some name => if names.contains name then names else names ++ [name]
        | none => names)

/-- The names of the wildcards that can be reached, each where it occurs first. No slot is visited twice. -/
def wildcardNames (a : PatternArena) : List String := a.visit a.size [a.root] []

/-- Cuts off the first child of slot `id`, if it has one: the number of the child, and the arena without
it. -/
def removeFirst (a : PatternArena) (id : Nat) : Option Nat × PatternArena :=
  match a.slot? id with
  | some { kind := .literal (removed :: remaining), .. } =>
    let slots := a.slots.modify id fun s => { s with kind := .literal remaining }
    let slots := placeFrom 0 remaining slots
    let slots := slots.modify removed fun s => { s with parent := none, position := 0 }
    (some removed, { a with slots })
  | _ => (none, a)

def removes (a : PatternArena) (ids : List Nat) : PatternArena :=
  ids.foldl (fun a id => (a.removeFirst id).2) a

end PatternArena

end FormulaMatch
