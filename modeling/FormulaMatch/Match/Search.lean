import FormulaMatch.Match.Sequence

/-! Searching the top-level sequence of a candidate for runs that a pattern matches, from left to
right and without overlap, and matching a candidate as a whole. -/

namespace FormulaMatch

/-- A run that was found, from its first place to the place after its last. -/
structure Hit where
  start : Nat
  stop : Nat
  captures : Captures
  deriving DecidableEq

/-- The first run in `queue`, whose first node stands at place `start`, or the first fault of the
places tried after `fault`. Only place 0 is tried unless tokens may lead. -/
def seek (options : Options) (ps : List Part) (start : Nat) (fault : Option Fault) :
    List Node → Except (Option Fault) Hit
  | [] => .error fault
  | n :: rest =>
    if start != 0 && !options.leading then .error fault
    else
      match matchRun options ps (n :: rest) with
      | .matched (left, captures) =>
        .ok { start, stop := start + ((n :: rest).length - left.length), captures }
      | failure => seek options ps (start + 1) (fault.or failure.fault?) rest

structure Search where
  pattern : Pattern
  options : Options
  sequence : List Node
  place : Nat := 0
  hit : Option Hit := none
  fault : Option Fault := none

namespace Search

def new (pattern : Pattern) (candidate : Tree) (options : Options) : Search :=
  { pattern, options, sequence := candidate.topLevel }

/-- The search after its next step, which finds nothing if the pattern is empty. -/
def next (s : Search) : Search :=
  if s.pattern.topLevel.isEmpty then { s with hit := none, fault := none }
  else
    match seek s.options s.pattern.topLevel s.place none (s.sequence.drop s.place) with
    | .ok hit => { s with place := max hit.stop (hit.start + 1), hit := some hit, fault := none }
    | .error fault => { s with place := s.sequence.length, hit := none, fault }

def restart (s : Search) : Search := { s with place := 0, hit := none, fault := none }

def succeeded (s : Search) : Bool := s.hit.isSome

def reachedEnd (s : Search) : Bool :=
  match s.hit with
  | some hit => hit.stop == s.sequence.length
  | none => false

def hitNodes (s : Search) : List Node :=
  match s.hit with
  | some hit => (s.sequence.drop hit.start).take (hit.stop - hit.start)
  | none => []

def captures (s : Search) : Captures :=
  match s.hit with
  | some hit => hit.captures
  | none => .empty

end Search

/-- Matches a whole candidate, up to the tokens that may lead or follow. An empty pattern matches an
empty candidate only. -/
def Pattern.matchWhole (p : Pattern) (candidate : Tree) (options : Options) : Outcome Captures :=
  if p.topLevel.isEmpty then .guard candidate.topLevel.isEmpty .empty
  else
    match seek options p.topLevel 0 none candidate.topLevel with
    | .ok hit => .matched hit.captures
    | .error fault => .ofFault? fault

end FormulaMatch
