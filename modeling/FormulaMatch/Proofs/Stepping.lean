import FormulaMatch.Match.Numbered
import FormulaMatch.Proofs.Refinement
import FormulaMatch.Proofs.Stopping

/-! Matching by numbers is matching by parts. What follows a wildcard is a literal, which hands on the queue
as it found it, so looking ahead takes nothing away; and numbers grow from step to step, so an arena
never runs out of steps. -/

namespace FormulaMatch

/-- The queue that is left and the value, where a step matches. -/
def Step.whole {α : Type} (step : Step α) : Outcome (List Node × α) := step.2.map fun a => (step.1, a)

section Taking

variable {options : Options} {lookahead : Node → List Node → Step Captures}
  {look : Node → Outcome Captures}

/-- Taking in nodes step by step is absorbing them, if the lookahead hands on its queue. -/
theorem absorbStep_whole (hlook : ∀ m rest, lookahead m rest = (rest, look m)) {fuel : Nat}
    (taken : List Node) (pending : Pending) (n : Node) (queue : List Node) (hfuel : queue.length < fuel) :
    (absorbStep options lookahead fuel taken pending n queue).whole =
      (absorb options look pending (n :: queue)).map fun run =>
        (run.left, (taken ++ run.taken, run.captures)) := by
  induction fuel generalizing taken pending n queue with
  | zero => cases hfuel
  | succ fuel ih =>
    have hshown : (if pending.mustClose then (queue, Outcome.unmatched) else lookahead n queue) =
        (queue, if pending.mustClose then .unmatched else look n) := by
      rw [hlook]
      split <;> rfl
    have hvalue : (if pending.mustClose then none else (look n).value?) =
        (if pending.mustClose then Outcome.unmatched else look n).value? := by
      split <;> rfl
    rw [absorbStep, absorb, hshown, hvalue]
    generalize (if pending.mustClose then Outcome.unmatched else look n) = shown
    cases shown with
    | matched captures => simp [Step.whole, Outcome.value?, Outcome.map]
    | _ =>
      cases queue with
      | nil => rfl
      | cons m left =>
        simp only [Outcome.value?, List.isEmpty_cons, Bool.false_or]
        split
        · rfl
        · cases pending.track options n.text with
          | matched after =>
            have hlength : left.length < fuel := by simpa using hfuel
            simp only [ih (taken ++ [n]) after m left hlength, Outcome.bind_matched, Outcome.map,
              Outcome.bind_assoc, List.append_assoc, List.singleton_append]
          | _ => rfl

theorem takeStep_whole (hlook : ∀ m rest, lookahead m rest = (rest, look m)) (name : String) (first : Node)
    (queue : List Node) : (takeStep options lookahead name first queue).whole =
      (absorbFrom options look first queue).bind fun run =>
        (run.captures.assign name run.taken).map fun D => (run.left, D) := by
  unfold takeStep absorbFrom
  by_cases hdiv : isDivider first.text = true
  · simp [hdiv, Step.whole, Outcome.map]
  · simp only [hdiv, Bool.false_eq_true, if_false, Bool.false_or]
    cases queue with
    | nil => rfl
    | cons n queue =>
      cases Pending.track options [] first.text with
      | matched pending =>
        have hrun : (absorbStep options lookahead (queue.length + 1) [first] pending n queue).whole = _ :=
          absorbStep_whole hlook [first] pending n queue (Nat.lt_succ_self _)
        simp only [Outcome.bind_matched, Outcome.map]
        generalize absorbStep options lookahead (queue.length + 1) [first] pending n queue = run at hrun ⊢
        obtain ⟨left, outcome⟩ := run
        cases hseq : absorb options look pending (n :: queue) <;> rw [hseq] at hrun <;>
          cases outcome <;> simp_all [Step.whole, Outcome.map]
      | _ => rfl

end Taking

section Rows

variable {options : Options} {step : Nat → Node → List Node → Captures → Step Captures} {ps : List Part}

/-- Where every part of a row is matched by its step, the row is. -/
theorem rowStep_whole (hstep : ∀ before q rest, ps = before ++ q :: rest → ∀ n queue C,
      (step q.id n queue C).whole = matchFront options q rest.head? n queue C)
    (queue : List Node) (C : Captures) :
    (rowStep step (ps.map Part.id) queue C).whole = matchParts options ps queue C := by
  induction ps generalizing queue C with
  | nil => simp [rowStep, matchParts, Step.whole, Outcome.map]
  | cons q rest ih =>
    cases queue with
    | nil => simp [rowStep, matchParts, Step.whole, Outcome.map]
    | cons n queue =>
      have hfront := hstep [] q rest rfl n queue C
      have hrest := ih fun before p after hsplit => hstep (q :: before) p after (by simp [hsplit])
      rw [List.map_cons, rowStep, matchParts_cons, ← hfront]
      generalize step q.id n queue C = first
      obtain ⟨left, outcome⟩ := first
      cases outcome with
      | matched D => exact hrest left D
      | _ => rfl

end Rows

theorem Pattern.root_mem (p : Pattern) : p.root ∈ p.allParts :=
  (Part.sublist_preorders _).subset List.mem_cons_self

namespace PatternArena

variable {a : PatternArena} {p : Pattern} {options : Options}

section Parts

variable (h : a.Stores p) (hlinked : a.Linked) (horder : ∀ q ∈ p.allParts, q.InOrder)

include h

theorem Stores.id_lt {q : Part} (hq : q ∈ p.allParts) : q.id < a.size := by
  obtain ⟨s, hs, -⟩ := h.slot q hq
  exact (List.getElem?_eq_some_iff.mp hs).1

theorem Stores.topLevel_eq : a.topLevel = p.topLevel.map Part.id := by
  obtain ⟨s, hs, hhead, -⟩ := h.slot p.root (Pattern.root_mem p)
  rw [topLevel, h.root, hs, Option.any_some, hhead, h.children (Pattern.root_mem p), Pattern.topLevel]
  split <;> rfl

include hlinked

theorem Stores.nextSibling?_of_child {o q : Part} (ho : o ∈ p.allParts) {before rest : List Part}
    (hsplit : o.parts = before ++ q :: rest) : a.nextSibling? q.id = rest.head?.map Part.id := by
  have hentry : (a.children o.id)[before.length]? = some q.id := by
    rw [h.children ho, hsplit]
    simp
  rw [hlinked.nextSibling?_eq hentry, h.children ho, List.getElem?_map, hsplit, getElem?_behind]

theorem Stores.nextSibling?_root : a.nextSibling? p.root.id = none := by
  obtain ⟨hzero, s, hs, hparent⟩ := hlinked.root
  rw [← h.root, hzero, nextSibling?, hs, Option.bind_some, hparent]
  rfl

include horder

/-- A step at an entry of a row is what its part does with the front of the queue, if steps at the literals
of the row are what these do with a node. -/
theorem step_whole_of_forall {o q : Part} (ho : o ∈ p.allParts) {before rest : List Part}
    (hsplit : o.parts = before ++ q :: rest)
    (hliteral : ∀ c ∈ o.parts, c.isWildcard = false → ∀ fuel, a.size ≤ fuel + c.id → ∀ n queue C,
      a.step options fuel c.id n queue C = (queue, matchPart options c n C))
    {fuel : Nat} (hfuel : a.size ≤ fuel + q.id) (n : Node) (queue : List Node) (C : Captures) :
    (a.step options fuel q.id n queue C).whole = matchFront options q rest.head? n queue C := by
  have hq : q ∈ o.parts := by simp [hsplit]
  have hlt := h.id_lt (Pattern.mem_allParts_of_child ho hq)
  cases q with
  | literal i hd ps =>
    rw [hliteral _ hq rfl fuel hfuel]
    rfl
  | wildcard i hd =>
    cases fuel with
    | zero => omega
    | succ fuel =>
      obtain ⟨s, hs, -, hkind⟩ := h.slot _ (Pattern.mem_allParts_of_child ho hq)
      rw [step, hs]
      simp only [hkind, Part.kind, h.nextSibling?_of_child hlinked ho hsplit]
      cases rest with
      | nil => rfl
      | cons next rest =>
        obtain ⟨hid, hspaced⟩ := (horder o ho).adjacent hsplit
        have hlook : ∀ m queue, a.step options fuel next.id m queue C = (queue, matchPart options next m C) :=
          fun m queue => hliteral next (by simp [hsplit]) (hspaced rfl) fuel (by omega) m queue C
        exact takeStep_whole hlook hd.text n queue

/-- A step at a literal matches it against the node and leaves the queue as it was. -/
theorem step_literal {q : Part} (hq : q ∈ p.allParts) (hliteral : q.isWildcard = false) {fuel : Nat}
    (hfuel : a.size ≤ fuel + q.id) (n : Node) (queue : List Node) (C : Captures) :
    a.step options fuel q.id n queue C = (queue, matchPart options q n C) := by
  induction q using Part.induction generalizing fuel n queue C with
  | wildcard i hd => cases hliteral
  | literal i hd ps ih =>
    have hlt := h.id_lt hq
    cases fuel with
    | zero => omega
    | succ fuel =>
      obtain ⟨s, hs, hhead, hkind⟩ := h.slot _ hq
      rw [step, hs]
      simp only [hkind, hhead, Part.kind, Part.head, matchPart, List.isEmpty_map]
      split
      · rfl
      split
      · rfl
      have hrow : (rowStep (a.step options fuel) (ps.map Part.id) n.children C).whole =
          matchParts options ps n.children C := by
        refine rowStep_whole (fun before c rest hsplit n queue C => ?_) n.children C
        have hc : c ∈ ps := by simp [hsplit]
        have hlt' := (horder _ hq).child_lt hc
        exact step_whole_of_forall h hlinked horder hq hsplit
          (fun d hd hd' fuel hfuel n queue C =>
            ih d hd (Pattern.mem_allParts_of_child hq hd) hd' hfuel n queue C)
          (by omega) n queue C
      rw [← hrow]
      cases rowStep (a.step options fuel) (ps.map Part.id) n.children C with
      | mk left outcome => cases outcome <;> rfl

theorem step_whole {o q : Part} (ho : o ∈ p.allParts) {before rest : List Part}
    (hsplit : o.parts = before ++ q :: rest) (n : Node) (queue : List Node) (C : Captures) :
    (a.step options a.size q.id n queue C).whole = matchFront options q rest.head? n queue C :=
  step_whole_of_forall h hlinked horder ho hsplit
    (fun _ hc hliteral _ hfuel =>
      step_literal h hlinked horder (Pattern.mem_allParts_of_child ho hc) hliteral hfuel)
    (Nat.le_add_right _ _) n queue C

/-- The root stands alone, so a wildcard there takes the whole queue. -/
theorem step_root (n : Node) (queue : List Node) (C : Captures) : a.step options a.size p.root.id n queue C =
    match p.root with
    | .wildcard _ hd => ([], C.assign hd.text (n :: queue))
    | .literal i hd ps => (queue, matchPart options (.literal i hd ps) n C) := by
  have hmem := Pattern.root_mem p
  cases hr : p.root with
  | literal i hd ps =>
    rw [hr] at hmem
    exact step_literal h hlinked horder hmem rfl (Nat.le_add_right _ _) n queue C
  | wildcard i hd =>
    have hlt := h.id_lt hmem
    obtain ⟨fuel, hsize⟩ : ∃ fuel, a.size = fuel + 1 := ⟨a.size - 1, by omega⟩
    obtain ⟨s, hs, -, hkind⟩ := h.slot _ hmem
    have hnext := h.nextSibling?_root hlinked
    rw [hr] at hs hkind hnext
    rw [hsize, step, hs]
    simp only [hkind, Part.kind, hnext]

theorem matchRoot_eq (n : Node) (queue : List Node) :
    a.matchRoot options n queue = p.matchRoot options n queue := by
  have hstep : a.step options a.size p.root.id n queue .empty = p.matchRoot options n queue :=
    step_root h hlinked horder n queue .empty
  rw [matchRoot, h.root, hstep]

theorem row_topLevel (queue : List Node) (C : Captures) :
    (rowStep (a.step options a.size) (p.topLevel.map Part.id) queue C).whole =
      matchParts options p.topLevel queue C := by
  refine rowStep_whole (fun before q rest hsplit n queue C => ?_) queue C
  unfold Pattern.topLevel at hsplit
  split at hsplit
  · exact step_whole h hlinked horder (Pattern.root_mem p) hsplit n queue C
  · obtain ⟨rfl, rfl, rfl⟩ : before = [] ∧ p.root = q ∧ rest = [] := by
      cases before <;> simp_all
    rw [step_root h hlinked horder]
    cases p.root <;> rfl

theorem trial_eq (queue : List Node) : a.trial options queue = matchRun options p.topLevel queue := by
  rw [trial, matchRun, h.topLevel_eq, ← row_topLevel h hlinked horder]
  cases rowStep (a.step options a.size) (p.topLevel.map Part.id) queue .empty with
  | mk left outcome => cases outcome <;> rfl

theorem seek_eq (start : Nat) (fault : Option Fault) (queue : List Node) :
    a.seek options start fault queue = FormulaMatch.seek options p.topLevel start fault queue := by
  induction queue generalizing start fault with
  | nil => rfl
  | cons n rest ih =>
    rw [seek, FormulaMatch.seek, trial_eq h hlinked horder]
    split
    · rfl
    · cases matchRun options p.topLevel (n :: rest) with
      | matched result => rfl
      | _ => exact ih _ _

theorem matchWhole_eq (t : Tree) : a.matchWhole t options = p.matchWhole t options := by
  have hseek : a.seek options 0 none t.topLevel = FormulaMatch.seek options p.topLevel 0 none t.topLevel :=
    seek_eq h hlinked horder 0 none t.topLevel
  have hempty : a.topLevel.isEmpty = p.topLevel.isEmpty := by rw [h.topLevel_eq, List.isEmpty_map]
  simp only [matchWhole, hempty, hseek]
  rfl

end Parts

end PatternArena

/-! Searches that stand for each other. -/

namespace ArenaSearch

def move (s : ArenaSearch) : Move → ArenaSearch
  | .next => s.next
  | .restart => s.restart

def run (s : ArenaSearch) (moves : List Move) : ArenaSearch := moves.foldl move s

/-- The searches stand at the same place and have found the same run or the same fault. -/
structure Agrees (s s' : ArenaSearch) : Prop where
  place : s.place = s'.place
  hit : s.hit = s'.hit
  fault : s.fault = s'.fault

/-- The same search with the pattern that the arena stores. -/
def withPattern (s : ArenaSearch) (p : Pattern) : Search :=
  { pattern := p, options := s.options, sequence := s.sequence, place := s.place, hit := s.hit, fault := s.fault }

variable {a : PatternArena} {p : Pattern} {s : ArenaSearch}

theorem arena_move (s : ArenaSearch) (m : Move) : (s.move m).arena = s.arena := by
  cases m with
  | restart => rfl
  | next =>
    simp only [move, next]
    split
    · rfl
    · split <;> rfl

theorem withPattern_move (h : s.arena.Stores p) (hlinked : s.arena.Linked)
    (horder : ∀ q ∈ p.allParts, q.InOrder) (m : Move) :
    (s.move m).withPattern p = (s.withPattern p).move m := by
  cases m with
  | restart => rfl
  | next =>
    simp only [move, next, Search.move, Search.next, withPattern, h.topLevel_eq, List.isEmpty_map,
      PatternArena.seek_eq h hlinked horder]
    by_cases hempty : p.topLevel.isEmpty = true
    · simp only [hempty, if_true]
    · simp only [hempty, Bool.false_eq_true, if_false]
      cases seek s.options p.topLevel s.place none (s.sequence.drop s.place) <;> rfl

theorem withPattern_run (h : s.arena.Stores p) (hlinked : s.arena.Linked)
    (horder : ∀ q ∈ p.allParts, q.InOrder) (moves : List Move) :
    (s.run moves).withPattern p = (s.withPattern p).run moves := by
  induction moves generalizing s with
  | nil => rfl
  | cons m moves ih =>
    have hrest := ih (s := s.move m) (by rwa [arena_move]) (by rwa [arena_move])
    rw [run, List.foldl_cons, Search.run, List.foldl_cons, ← withPattern_move h hlinked horder]
    exact hrest

end ArenaSearch

end FormulaMatch
