import FormulaMatch.Proofs.Provenance
import FormulaMatch.Proofs.Unambiguity
import Mathlib.Data.List.TakeWhile

/-! How a match becomes malformed. A derivation says which step fails: a wildcard meets a closing bracket
that nothing opens, or takes in a run in conflict with an earlier one. No step fails only because
a part looks at a node twice. -/

namespace FormulaMatch

open Captures (Entry)

/-- `Faults options ps queue C fault`: matched from left to right against the queue, the parts come to
a step with this fault. -/
inductive Faults (options : Options) : List Part → List Node → Captures → Fault → Prop
  | inside {i h ps rest n queue C fault} (text : h.text = n.text) (parts : ps ≠ [])
      (children : Faults options ps n.children C fault) :
      Faults options (.literal i h ps :: rest) (n :: queue) C fault
  | after {p rest n queue C C' fault} (here : matchPart options p n C = .matched C')
      (tail : Faults options rest queue C' fault) :
      Faults options (p :: rest) (n :: queue) C fault
  | last {i h n queue C fault} (conflict : C.assign h.text (n :: queue) = .malformed fault) :
      Faults options [.wildcard i h] (n :: queue) C fault
  | bracket {i h next rest n queue C fault}
      (stuck : absorbFrom options (fun m => matchPart options next m C) n queue = .malformed fault) :
      Faults options (.wildcard i h :: next :: rest) (n :: queue) C fault
  | conflict {i h next rest n queue C run fault}
      (absorbed : absorbFrom options (fun m => matchPart options next m C) n queue = .matched run)
      (conflict : run.captures.assign h.text run.taken = .malformed fault) :
      Faults options (.wildcard i h :: next :: rest) (n :: queue) C fault
  | behind {i h next rest n queue C run m left C₂ C₃ fault}
      (absorbed : absorbFrom options (fun m => matchPart options next m C) n queue = .matched run)
      (left_eq : run.left = m :: left)
      (assigned : run.captures.assign h.text run.taken = .matched C₂)
      (again : matchPart options next m C₂ = .matched C₃)
      (tail : Faults options rest left C₃ fault) :
      Faults options (.wildcard i h :: next :: rest) (n :: queue) C fault

variable {options : Options} {ps rest : List Part} {queue : List Node} {C D : Captures} {fault : Fault}

theorem matchPart_branch_malformed {i : Nat} {h : Head} {n : Node} :
    matchPart options (.literal i h ps) n C = .malformed fault ↔
      h.text = n.text ∧ ps ≠ [] ∧ matchParts options ps n.children C = .malformed fault := by
  by_cases ht : h.text = n.text
  · by_cases hps : ps = []
    · simp [matchPart, ht, hps]
    · have he : ps.isEmpty = false := by simpa using hps
      simp [matchPart, ht, he, hps, Outcome.bind_eq_malformed_iff]
  · simp [matchPart, ht]

/-- Where a wildcard has stopped, the part that stopped it matches again, so that only its own run or
what comes behind that part can be at fault. -/
theorem exists_again {h : Head} {next : Part} {n : Node} {run : Absorbed} {C₂ : Captures}
    (absorbed : absorbFrom options (fun m => matchPart options next m C) n queue = .matched run)
    (assigned : run.captures.assign h.text run.taken = .matched C₂) :
    ∃ m left C₃, run.left = m :: left ∧ matchPart options next m C₂ = .matched C₃ := by
  obtain ⟨-, -, m, left, -, -, hleft, -, hm, -⟩ := absorbFrom_eq_matched_iff.mp absorbed
  obtain ⟨-, C₃, hagain, -⟩ := matchPart_again hm (.of_assign assigned)
  exact ⟨m, left, C₃, hleft, hagain⟩

theorem Faults.matchParts (hf : Faults options ps queue C fault) :
    matchParts options ps queue C = .malformed fault := by
  induction hf with
  | inside text parts _ ih =>
    rw [FormulaMatch.matchParts, matchPart_branch_malformed.mpr ⟨text, parts, ih⟩,
      Outcome.bind_malformed]
  | after here _ ih => rw [matchParts_of_matchPart here, ih]
  | last conflict => rw [FormulaMatch.matchParts, conflict]; rfl
  | bracket stuck => rw [FormulaMatch.matchParts, stuck, Outcome.bind_malformed]
  | conflict absorbed conflict =>
    rw [FormulaMatch.matchParts, absorbed, Outcome.bind_matched, conflict, Outcome.bind_malformed]
  | behind absorbed left_eq assigned again _ ih =>
    rw [FormulaMatch.matchParts, absorbed, Outcome.bind_matched, assigned, Outcome.bind_matched,
      left_eq, matchParts_of_matchPart again, ih]

theorem Faults.behind_of_matchPart {p : Part} {n : Node}
    (hf : Faults options (p :: rest) (n :: queue) C fault) (h : matchPart options p n C = .matched D) :
    Faults options rest queue D fault := by
  cases hf with
  | inside text parts children =>
    rw [matchPart_branch_malformed.mpr ⟨text, parts, children.matchParts⟩] at h
    cases h
  | after here tail =>
    rw [here, Outcome.matched.injEq] at h
    exact h ▸ tail
  | last => simp [matchPart] at h
  | bracket => simp [matchPart] at h
  | conflict => simp [matchPart] at h
  | behind => simp [matchPart] at h

theorem faults_of_matchParts (h : matchParts options ps queue C = .malformed fault) :
    Faults options ps queue C fault := by
  induction ps using Part.row_induction generalizing queue C with
  | nil => simp [matchParts] at h
  | literal i hd ps rest ihps ihrest =>
    cases queue with
    | nil => simp [matchParts] at h
    | cons n queue =>
      rw [matchParts, Outcome.bind_eq_malformed_iff] at h
      rcases h with h | ⟨C', here, h⟩
      · obtain ⟨text, parts, h⟩ := matchPart_branch_malformed.mp h
        exact .inside text parts (ihps h)
      · exact .after here (ihrest h)
  | wildcard i hd rest ihrest _ =>
    cases queue with
    | nil => cases rest <;> simp [matchParts] at h
    | cons n queue =>
      cases rest with
      | nil =>
        rw [matchParts, Outcome.map, Outcome.bind_eq_malformed_iff] at h
        rcases h with h | ⟨_, -, h⟩
        · exact .last h
        · cases h
      | cons next rest =>
        rw [matchParts, Outcome.bind_eq_malformed_iff] at h
        rcases h with h | ⟨run, absorbed, h⟩
        · exact .bracket h
        · rw [Outcome.bind_eq_malformed_iff] at h
          rcases h with h | ⟨C₂, assigned, h⟩
          · exact .conflict absorbed h
          · obtain ⟨m, left, C₃, left_eq, again⟩ := exists_again absorbed assigned
            have htail := ihrest h
            rw [left_eq] at htail
            exact .behind absorbed left_eq assigned again (htail.behind_of_matchPart again)

namespace Pending

variable {pending : Pending} {text : String}

/-- The waiting bracket that the next closing one has to close. -/
def innermost? (pending : Pending) : Option (Bracket × String) :=
  pending.find? fun entry => !entry.1.isSymmetric

theorem mustClose_eq (pending : Pending) : pending.mustClose = pending.innermost?.isSome := by
  rw [mustClose, innermost?, List.isSome_find?]

/-- What waits when a closing bracket closes nothing. -/
inductive Refuses (pending : Pending) (bracket : Bracket) (text : String) : Fault → Prop
  | stray (closed : pending.mustClose = false) : Refuses pending bracket text (.strayClosing text)
  | crossed {top spelling} (waits : pending.innermost? = some (top, spelling))
      (other : top.closedBy bracket = false) :
      Refuses pending bracket text (.crossedBrackets text spelling)

theorem feed_eq_malformed (h : pending.feed text = .malformed fault) :
    ∃ bracket, Bracket.ofText? text = some bracket ∧ bracket.side = .closing ∧
      pending.Refuses bracket text fault := by
  unfold feed at h
  cases hb : Bracket.ofText? text with
  | none => simp [hb] at h
  | some bracket =>
    cases hside : bracket.side with
    | opening => simp [hb, hside] at h
    | symmetric => simp [hb, hside] at h
    | closing =>
      refine ⟨bracket, rfl, hside, ?_⟩
      simp only [hb, hside, feedClosing] at h
      have hfirst := List.find?_not_eq_head?_dropWhile (fun entry : Bracket × String =>
        entry.1.isSymmetric) pending
      cases hd : pending.dropWhile fun entry => entry.1.isSymmetric with
      | nil =>
        rw [hd] at h hfirst
        cases h
        exact .stray (by rw [mustClose_eq, innermost?, hfirst]; rfl)
      | cons top rest =>
        rw [hd] at h hfirst
        by_cases hc : top.1.closedBy bracket = true
        · simp [hc] at h
        · simp only [hc] at h
          cases h
          exact .crossed hfirst (by simpa using hc)

theorem track_eq_malformed_iff :
    pending.track options text = .malformed fault ↔
      options.ignoreBrackets = false ∧ pending.feed text = .malformed fault := by
  by_cases hb : options.ignoreBrackets = true
  · simp [track, hb]
  · simp [track, hb]

end Pending

section Brackets

variable {next : Node → Outcome Captures} {pending : Pending}

/-- The nodes `row` were taken in, with `pending` waiting from before, and the one behind them is at
fault. -/
def Breaks (options : Options) (pending : Pending) (fault : Fault) (row : List Node) (n : Node) : Prop :=
  options.ignoreBrackets = false ∧ ∃ waiting,
    pending.feedAll (row.map Formula.text) = .matched waiting ∧ waiting.feed n.text = .malformed fault

theorem Breaks.nil {n : Node} (h : pending.track options n.text = .malformed fault) :
    Breaks options pending fault [] n := by
  obtain ⟨hb, hfeed⟩ := Pending.track_eq_malformed_iff.mp h
  exact ⟨hb, pending, rfl, hfeed⟩

theorem Breaks.cons {after : Pending} {row : List Node} {m n : Node}
    (h : pending.track options m.text = .matched after) (hr : Breaks options after fault row n) :
    Breaks options pending fault (m :: row) n := by
  obtain ⟨hb, waiting, hwaiting, hfeed⟩ := hr
  have hm : pending.feed m.text = .matched after := by simpa [Pending.track, hb] using h
  refine ⟨hb, waiting, ?_, hfeed⟩
  rw [List.map_cons, Pending.feedAll, hm, Outcome.bind_matched, hwaiting]

theorem breaks_of_absorb (h : absorb options next pending queue = .malformed fault) :
    ∃ row n after, queue = row ++ n :: after ∧ Breaks options pending fault row n := by
  induction queue generalizing pending with
  | nil => simp [absorb] at h
  | cons m queue ih =>
    rw [absorb] at h
    split at h
    · cases h
    · split at h
      · cases h
      · rw [Outcome.bind_eq_malformed_iff] at h
        rcases h with h | ⟨after, htrack, h⟩
        · exact ⟨[], m, queue, rfl, .nil h⟩
        · rw [Outcome.map, Outcome.bind_eq_malformed_iff] at h
          rcases h with h | ⟨_, -, h⟩
          · obtain ⟨row, n, rest, rfl, hbreaks⟩ := ih h
            exact ⟨m :: row, n, rest, rfl, .cons htrack hbreaks⟩
          · cases h

theorem breaks_of_absorbFrom {m : Node} (h : absorbFrom options next m queue = .malformed fault) :
    ∃ row n after, m :: queue = row ++ n :: after ∧ Breaks options [] fault row n := by
  unfold absorbFrom at h
  split at h
  · cases h
  · rw [Outcome.bind_eq_malformed_iff] at h
    rcases h with h | ⟨after, htrack, h⟩
    · exact ⟨[], m, queue, rfl, .nil h⟩
    · rw [Outcome.map, Outcome.bind_eq_malformed_iff] at h
      rcases h with h | ⟨_, -, h⟩
      · obtain ⟨row, n, rest, rfl, hbreaks⟩ := breaks_of_absorb h
        exact ⟨m :: row, n, rest, rfl, .cons htrack hbreaks⟩
      · cases h

end Brackets

theorem assign_eq_malformed {name : String} {run : List Node}
    (h : C.assign name run = .malformed fault) :
    fault = .conflictingCapture name ∧ ∃ s, C.shape? name = some s := by
  unfold Captures.assign at h
  split at h
  · cases h
  · rename_i earlier he
    split at h
    · cases h
    · cases h
      exact ⟨rfl, _, by rw [Captures.shape?, he]; rfl⟩

/-- Every fault is a conflict between captures or a bracket in some row of siblings. -/
theorem Faults.cases_row (hf : Faults options ps queue C fault) :
    (∃ name, fault = .conflictingCapture name) ∨
      ∃ row n, RowIn queue (row ++ [n]) ∧ Breaks options [] fault row n := by
  induction hf with
  | inside _ _ _ ih =>
    exact ih.imp_right fun ⟨row, n, hrow, hbreaks⟩ =>
      ⟨row, n, .of_children List.mem_cons_self hrow, hbreaks⟩
  | after _ _ ih =>
    exact ih.imp_right fun ⟨row, n, hrow, hbreaks⟩ =>
      ⟨row, n, hrow.mono (List.suffix_cons _ _).isInfix, hbreaks⟩
  | last conflict => exact .inl ⟨_, (assign_eq_malformed conflict).1⟩
  | bracket stuck =>
    obtain ⟨row, n, after, hq, hbreaks⟩ := breaks_of_absorbFrom stuck
    exact .inr ⟨row, n, .inl ⟨[], after, by simp [hq]⟩, hbreaks⟩
  | conflict _ conflict => exact .inl ⟨_, (assign_eq_malformed conflict).1⟩
  | @behind _ _ _ _ _ _ _ run m left _ _ _ absorbed left_eq _ _ _ ih =>
    refine ih.imp_right fun ⟨row, n, hrow, hbreaks⟩ => ⟨row, n, hrow.mono ?_, hbreaks⟩
    rw [← absorbFrom_partition absorbed, left_eq, List.append_cons]
    exact (List.suffix_append _ _).isInfix

theorem shape?_or_of_matchPart {p : Part} {n : Node} {name : String} {s : List Expr}
    (h : matchPart options p n C = .matched D) (hs : D.shape? name = some s) :
    C.shape? name = some s ∨ name ∈ Part.names [p] := by
  obtain ⟨_, ht⟩ := (matchPart_eq_matched_iff (isWildcard_of_matchPart h)).mp h
  exact ht.shape?_or hs

/-- A run is in conflict with what another occurrence of the same wildcard has taken in, or with what
was captured from the start. -/
theorem Faults.twice {name : String} (hf : Faults options ps queue C (.conflictingCapture name)) :
    2 ≤ (Part.names ps).count name ∨ name ∈ Part.names ps ∧ ∃ s, C.shape? name = some s := by
  generalize hfault : Fault.conflictingCapture name = fault at hf
  induction hf with
  | inside _ _ _ ih =>
    rw [Part.names_literal, List.count_append, List.mem_append]
    rcases ih hfault with h | ⟨hn, hs⟩
    · exact .inl (by omega)
    · exact .inr ⟨.inl hn, hs⟩
  | after here _ ih =>
    rw [Part.names_cons, List.count_append, List.mem_append]
    rcases ih hfault with h | ⟨hn, s, hs⟩
    · exact .inl (by omega)
    · rcases shape?_or_of_matchPart here hs with hs | hn'
      · exact .inr ⟨.inr hn, s, hs⟩
      · have := List.count_pos_iff.mpr hn
        have := List.count_pos_iff.mpr hn'
        exact .inl (by omega)
  | last conflict =>
    obtain ⟨rfl, hs⟩ := assign_eq_malformed conflict
    cases hfault
    exact .inr ⟨by simp, hs⟩
  | bracket stuck =>
    obtain ⟨row, n, -, -, -, waiting, -, hfeed⟩ := breaks_of_absorbFrom stuck
    obtain ⟨_, -, -, hrefuses⟩ := Pending.feed_eq_malformed hfeed
    subst hfault
    cases hrefuses
  | @conflict _ h next _ _ _ _ run _ absorbed conflict =>
    obtain ⟨rfl, s, hs⟩ := assign_eq_malformed conflict
    cases hfault
    rw [Part.names_wildcard, Part.names_cons, List.count_cons_self, List.count_append]
    obtain ⟨-, -, m, -, -, -, -, -, hm, -⟩ := absorbFrom_eq_matched_iff.mp absorbed
    rcases shape?_or_of_matchPart hm hs with hs | hn
    · exact .inr ⟨List.mem_cons_self, s, hs⟩
    · have := List.count_pos_iff.mpr hn
      exact .inl (by omega)
  | @behind _ h next rest _ _ _ run _ _ _ _ _ absorbed _ assigned again _ ih =>
    rw [Part.names_wildcard, Part.names_cons, List.mem_cons, List.mem_append, List.count_cons,
      List.count_append]
    rcases ih hfault with h | ⟨hn, s, hs⟩
    · exact .inl (by omega)
    · have hrest := List.count_pos_iff.mpr hn
      have hahead : name ∈ Part.names [next] → 0 < (Part.names [next]).count name :=
        List.count_pos_iff.mpr
      obtain ⟨-, -, m, -, -, -, -, -, hm, -⟩ := absorbFrom_eq_matched_iff.mp absorbed
      rcases shape?_or_of_matchPart again hs with hs | hn'
      · rcases shape?_or_of_assign assigned hs with hs | rfl
        · rcases shape?_or_of_matchPart hm hs with hs | hn'
          · exact .inr ⟨.inr (.inr hn), s, hs⟩
          · have := hahead hn'
            exact .inl (by omega)
        · exact .inl (by simp; omega)
      · have := hahead hn'
        exact .inl (by omega)

end FormulaMatch
