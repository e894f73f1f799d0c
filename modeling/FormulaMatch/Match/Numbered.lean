import FormulaMatch.Match.Search
import FormulaMatch.Pattern.Arena

/-! Matching with a pattern as it is stored. The engine goes from slot to slot by their numbers: from a
literal to its children, and from a wildcard to the sibling that may take over from it. Every step hands
on the queue as it is left, whether it matches or not. -/

namespace FormulaMatch

/-- What is left of a queue, and the outcome. -/
abbrev Step (α : Type) := List Node × Outcome α

/-- Takes in nodes behind `taken` until the lookahead matches one, `n` to begin with. It is not consulted
while a bracket waits. Every round shortens the queue. -/
def absorbStep (options : Options) (lookahead : Node → List Node → Step Captures) :
    (fuel : Nat) → (taken : List Node) → Pending → Node → List Node → Step (List Node × Captures)
  | 0, _, _, _, queue => (queue, .unmatched)
  | fuel + 1, taken, pending, n, queue =>
    match if pending.mustClose then (queue, .unmatched) else lookahead n queue with
    | (left, .matched captures) => (n :: left, .matched (taken, captures))
    | ([], _) => ([], .unmatched)
    | (m :: left, _) =>
      if pending.isEmpty && isDivider n.text then (m :: left, .unmatched)
      else
        match pending.track options n.text with
        | .matched pending => absorbStep options lookahead fuel (taken ++ [n]) pending m left
        | .unmatched => (m :: left, .unmatched)
        | .malformed fault => (m :: left, .malformed fault)

/-- A wildcard takes in `first` and what follows it, before a part that looks ahead. -/
def takeStep (options : Options) (lookahead : Node → List Node → Step Captures) (name : String)
    (first : Node) (queue : List Node) : Step Captures :=
  if isDivider first.text then (queue, .unmatched)
  else
    match queue with
    | [] => ([], .unmatched)
    | n :: queue =>
      match Pending.track options [] first.text with
      | .unmatched => (queue, .unmatched)
      | .malformed fault => (queue, .malformed fault)
      | .matched pending =>
        let run := absorbStep options lookahead (queue.length + 1) [first] pending n queue
        (run.1, run.2.bind fun (taken, captures) => captures.assign name taken)

/-- Steps through parts from left to right, each against the front of what the one before it left. -/
def rowStep (step : Nat → Node → List Node → Captures → Step Captures) :
    List Nat → List Node → Captures → Step Captures
  | [], queue, captures => (queue, .matched captures)
  | _ :: _, [], _ => ([], .unmatched)
  | id :: ids, n :: queue, captures =>
    match step id n queue captures with
    | (left, .matched captures) => rowStep step ids left captures
    | failure => failure

namespace PatternArena

section Engine

variable (a : PatternArena) (options : Options)

/-- Matches slot `id` against a node before `queue`. Each step goes to a larger number, so there are no
more steps than slots. -/
def step : (fuel : Nat) → (id : Nat) → Node → List Node → Captures → Step Captures
  | 0, _, _, queue, _ => (queue, .unmatched)
  | fuel + 1, id, n, queue, captures =>
    match a.slot? id with
    | none => (queue, .unmatched)
    | some s =>
      match s.kind with
      | .literal ids =>
        if s.head.text != n.text then (queue, .unmatched)
        else if ids.isEmpty then (queue, .guard n.isLeaf captures)
        else
          let row := rowStep (step fuel) ids n.children captures
          (queue, row.2.bind fun captures => .guard (options.following || row.1.isEmpty) captures)
      | .wildcard name =>
        match a.nextSibling? id with
        | none => ([], captures.assign name (n :: queue))
        | some next => takeStep options (fun m rest => step fuel next m rest captures) name n queue

/-- Matches the top level against a queue, which it has to use up unless tokens may follow. -/
def trial (queue : List Node) : Outcome (List Node × Captures) :=
  let row := rowStep (a.step options a.size) a.topLevel queue .empty
  row.2.bind fun captures => .guard (options.following || row.1.isEmpty) (row.1, captures)

def matchRoot (n : Node) (queue : List Node) : Step Captures :=
  a.step options a.size a.root n queue .empty

/-- The first place from `start` on where the top level matches, or the first fault of the trials. -/
def seek (start : Nat) (fault : Option Fault) : List Node → Except (Option Fault) Hit
  | [] => .error fault
  | n :: rest =>
    if start != 0 && !options.leading then .error fault
    else
      match a.trial options (n :: rest) with
      | .matched (left, captures) =>
        .ok { start, stop := start + ((n :: rest).length - left.length), captures }
      | failure => seek (start + 1) (fault.or failure.fault?) rest

end Engine

def matchWhole (a : PatternArena) (candidate : Tree) (options : Options) : Outcome Captures :=
  if a.topLevel.isEmpty then .guard candidate.topLevel.isEmpty .empty
  else
    match a.seek options 0 none candidate.topLevel with
    | .ok hit => .matched hit.captures
    | .error fault => .ofFault? fault

end PatternArena

/-- A search with a stored pattern. -/
structure ArenaSearch where
  arena : PatternArena
  options : Options
  sequence : List Node
  place : Nat := 0
  hit : Option Hit := none
  fault : Option Fault := none

namespace ArenaSearch

def new (arena : PatternArena) (candidate : Tree) (options : Options) : ArenaSearch :=
  { arena, options, sequence := candidate.topLevel }

def next (s : ArenaSearch) : ArenaSearch :=
  if s.arena.topLevel.isEmpty then { s with hit := none, fault := none }
  else
    match s.arena.seek s.options s.place none (s.sequence.drop s.place) with
    | .ok hit => { s with place := max hit.stop (hit.start + 1), hit := some hit, fault := none }
    | .error fault => { s with place := s.sequence.length, hit := none, fault }

def restart (s : ArenaSearch) : ArenaSearch := { s with place := 0, hit := none, fault := none }

end ArenaSearch

end FormulaMatch
