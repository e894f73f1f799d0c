import FormulaMatch.Proofs.Provenance
import FormulaMatch.Session

/-! Sessions after any history of matches. A match looks at the reader, the pattern and its own candidate
alone, and what it leaves behind are its own captures or none. -/

namespace FormulaMatch

theorem NameMap.keys_map {α β : Type} (f : α → β) (m : NameMap α) : (m.map f).keys = m.keys := by
  simp [keys, map]

theorem Captures.strings_snapshot (C : Captures) : C.snapshot.strings = C.strings := by
  refine NameMap.ext_get? fun name => ?_
  simp only [Snapshot.strings, snapshot, strings, NameMap.get?_map, Option.map_map]
  congr 1
  funext run
  simp [Formula.renderAll]

theorem keys_of_matchWhole {p : Pattern} {t : Tree} {options : Options} {C : Captures}
    (h : p.matchWhole t options = .matched C) :
    C = .empty ∨ p.topLevel ≠ [] ∧ ∀ name, name ∈ C.keys ↔ name ∈ p.wildcardNames := by
  by_cases hp : p.topLevel = []
  · exact .inl (matchWhole_of_topLevel_eq_nil hp h).2
  · obtain ⟨hit, hhit, rfl⟩ := holds_of_matchWhole hp h
    exact .inr ⟨hp, (hhit.provenance hp).keys⟩

namespace Session

/-- A match that a session is asked for. A text is matched exactly if nothing else is said. -/
inductive Call where
  | text (source : String) (options : Options := .exact)
  | tree (e : Expr) (options : Options)

def Call.options : Call → Options
  | text _ options => options
  | tree _ options => options

/-- What is to be matched, before it is brought into normal form. A text may be unreadable. -/
def Call.candidate? (reader : Reader) : Call → Option Expr
  | text source _ => (reader.read source).toOption
  | tree e _ => some e

def answer (s : Session) : Call → Bool × Session
  | .text source options => s.matchText source options
  | .tree e options => s.matchTree e options

def after (s : Session) (calls : List Call) : Session :=
  calls.foldl (fun s call => (s.answer call).2) s

/-- How the pattern fares with the candidate of a call, if there is one. -/
def outcome? (s : Session) (call : Call) : Option (Outcome Captures) :=
  (call.candidate? s.reader).map fun e =>
    s.pattern.matchWhole (.ofExpr (s.reader.normalize e)) call.options

/-- The session as it is made, from a tree or from a text. -/
def IsNew (s : Session) : Prop :=
  (∃ source wildcards, ofTree s.reader source wildcards = .ok s) ∨
    ∃ text wildcards, ofText s.reader text wildcards = .ok s

variable {s : Session} {call : Call} {C : Captures}

theorem captures_of_ofTree {reader : Reader} {source : Tree} {wildcards : Wildcards}
    (h : ofTree reader source wildcards = .ok s) : s.captures = .empty := by
  unfold ofTree at h
  split at h
  · cases h
    rfl
  · cases h

theorem IsNew.captures (h : s.IsNew) : s.captures = .empty := by
  rcases h with ⟨source, wildcards, h⟩ | ⟨text, wildcards, h⟩
  · exact captures_of_ofTree h
  · unfold ofText at h
    split at h
    · cases h
    · split at h
      · cases h
      · exact captures_of_ofTree h

theorem answer_of_outcome (h : s.outcome? call = some (.matched C)) :
    s.answer call = (true, { s with captures := C.snapshot }) := by
  obtain ⟨e, he, hC⟩ := Option.map_eq_some_iff.mp h
  cases call with
  | tree e' options =>
    cases he
    simp only [Call.options] at hC
    simp [answer, matchTree, hC]
  | text source options =>
    simp only [Call.candidate?, Call.options] at he hC
    cases hr : s.reader.read source with
    | error _ => simp [hr, Except.toOption] at he
    | ok e' =>
      obtain rfl : e' = e := by simpa [hr, Except.toOption] using he
      simp [answer, matchText, matchTree, hr, hC]

theorem answer_of_no_outcome (h : ∀ C, s.outcome? call ≠ some (.matched C)) :
    s.answer call = (false, { s with captures := .empty }) := by
  have hTree : ∀ e options, (∀ C, s.pattern.matchWhole (.ofExpr (s.reader.normalize e)) options ≠ .matched C) →
      s.matchTree e options = (false, { s with captures := .empty }) := by
    intro e options hno
    unfold matchTree
    split
    · exact absurd ‹_› (hno _)
    · rfl
    · rfl
  cases call with
  | tree e options => exact hTree e options fun C hC => h C (by simp [outcome?, Call.candidate?, Call.options, hC])
  | text source options =>
    simp only [answer, matchText]
    cases hr : s.reader.read source with
    | error _ => rfl
    | ok e =>
      refine hTree e options fun C hC => h C ?_
      simp [outcome?, Call.candidate?, Call.options, hr, Except.toOption, hC]

theorem answer_cases (s : Session) (call : Call) :
    (∃ C, s.outcome? call = some (.matched C) ∧
      s.answer call = (true, { s with captures := C.snapshot })) ∨
    ((∀ C, s.outcome? call ≠ some (.matched C)) ∧
      s.answer call = (false, { s with captures := .empty })) := by
  by_cases h : ∃ C, s.outcome? call = some (.matched C)
  · obtain ⟨C, hC⟩ := h
    exact .inl ⟨C, hC, answer_of_outcome hC⟩
  · rw [not_exists] at h
    exact .inr ⟨h, answer_of_no_outcome h⟩

theorem after_concat (s : Session) (calls : List Call) (call : Call) :
    s.after (calls ++ [call]) = ((s.after calls).answer call).2 := by
  simp [after]

theorem exists_after_eq (s : Session) (calls : List Call) :
    ∃ captures, s.after calls = { s with captures } := by
  induction calls using List.reverseRecOn with
  | nil => exact ⟨s.captures, rfl⟩
  | append_singleton calls call ih =>
    obtain ⟨captures, h⟩ := ih
    rw [after_concat, h]
    rcases answer_cases { s with captures } call with ⟨C, -, ha⟩ | ⟨-, ha⟩
    · exact ⟨C.snapshot, by rw [ha]⟩
    · exact ⟨.empty, by rw [ha]⟩

/-- No match leaves a trace in the next. -/
theorem answer_after (s : Session) (calls : List Call) (call : Call) :
    (s.after calls).answer call = s.answer call := by
  obtain ⟨captures, h⟩ := s.exists_after_eq calls
  rw [h]
  rcases answer_cases s call with ⟨C, hC, ha⟩ | ⟨hno, ha⟩
  · rw [ha, answer_of_outcome (s := { s with captures }) hC]
  · rw [ha, answer_of_no_outcome (s := { s with captures }) hno]

theorem captures_after (h : s.IsNew) (calls : List Call) :
    (s.after calls).captures = .empty ∨ s.pattern.topLevel ≠ [] ∧
      ∀ name, name ∈ (s.after calls).captures.keys ↔ name ∈ s.pattern.wildcardNames := by
  rcases calls.eq_nil_or_concat with rfl | ⟨calls, call, rfl⟩
  · exact .inl h.captures
  · rw [List.concat_eq_append, after_concat, answer_after]
    rcases answer_cases s call with ⟨C, hC, ha⟩ | ⟨-, ha⟩
    · obtain ⟨e, -, hm⟩ := Option.map_eq_some_iff.mp hC
      rw [ha]
      rcases keys_of_matchWhole hm with rfl | hkeys
      · exact .inl rfl
      · exact .inr (by simpa only [Captures.snapshot, NameMap.keys_map] using hkeys)
    · exact .inl (by rw [ha])

end Session

/-- After any matches, what a session answers and then holds depends on its pattern and on the last
candidate alone: it is a match if the candidate could be read and its normal form is matched, and
then it holds what that captured, and otherwise nothing. So a session holds nothing or captures of
all wildcards that its pattern reaches. -/
theorem session_holds_last_captures {s : Session} (hs : s.IsNew) (calls : List Session.Call) :
    (∀ call, (s.after calls).answer call = s.answer call ∧
      s.after (calls ++ [call]) = (s.answer call).2 ∧
      ((s.answer call).1 = true ↔ ∃ C, s.outcome? call = some (.matched C)) ∧
      (∀ C, s.outcome? call = some (.matched C) →
        (s.answer call).2.captures = C.snapshot ∧ (s.answer call).2.captures.strings = C.strings) ∧
      ((s.answer call).1 = false → (s.answer call).2.captures = .empty)) ∧
    ((s.after calls).captures = .empty ∨ s.pattern.topLevel ≠ [] ∧
      ∀ name, name ∈ (s.after calls).captures.keys ↔ name ∈ s.pattern.wildcardNames) := by
  refine ⟨fun call => ⟨s.answer_after calls call, ?_, ?_, fun C hC => ?_, fun hfalse => ?_⟩,
    Session.captures_after hs calls⟩
  · rw [Session.after_concat, Session.answer_after]
  · rcases s.answer_cases call with ⟨C, hC, ha⟩ | ⟨hno, ha⟩
    · simp [ha, hC]
    · simpa [ha] using hno
  · rw [Session.answer_of_outcome hC]
    exact ⟨rfl, C.strings_snapshot⟩
  · rcases s.answer_cases call with ⟨C, -, ha⟩ | ⟨-, ha⟩
    · simp [ha] at hfalse
    · rw [ha]

/-- A session for `w = v` after a match and a mismatch: `a b = {{2}}` fills it and the unreadable
`a b = {2` empties it. -/
theorem session_holds_last_captures_unreadable :
    let source : Tree := .ofExpr (.sequence [.leaf "w", .leaf "=", .leaf "v"])
    let wildcards : Wildcards := ⟨"w|v", some (.concat .textStart (.concat
      (.either (.one false (.single 'w')) (.one false (.single 'v'))) .textEnd))⟩
    let calls : List Session.Call := [.text "a b = 2", .tree (.sequence [.leaf "a"]) .lenient]
    ∃ s, Session.ofTree .tex source wildcards = .ok s ∧ s.IsNew ∧
      ((s.after calls).answer (.text "a b = \x7b\x7b2\x7d\x7d")).1 = true ∧
      ((s.after calls).answer (.text "a b = \x7b\x7b2\x7d\x7d")).2.captures.keys = ["v", "w"] ∧
      ((s.after calls).answer (.text "a b = \x7b2")).1 = false ∧
      ((s.after calls).answer (.text "a b = \x7b2")).2.captures = .empty := by
  intro source wildcards calls
  obtain ⟨s, hs⟩ : ∃ s, Session.ofTree .tex source wildcards = .ok s := ⟨_, rfl⟩
  have hnew : s.IsNew := by
    refine .inl ⟨source, wildcards, ?_⟩
    cases hs
    rfl
  have hread : Expr.read "a b = \x7b\x7b2\x7d\x7d" =
      .ok (.sequence [.leaf "a", .leaf "b", .leaf "=", .group [.group [.leaf "2"]]]) := rfl
  have hfail : Expr.read "a b = \x7b2" = .error (.unclosedGroup 6) := rfl
  have hmatch : ∃ C, s.outcome? (.text "a b = \x7b\x7b2\x7d\x7d") = some (.matched C) ∧ C.keys = ["v", "w"] := by
    cases hs
    simp only [Session.outcome?, Session.Call.candidate?, Reader.tex, hread]
    exact ⟨_, rfl, rfl⟩
  have hnone : ∀ C, s.outcome? (.text "a b = \x7b2") ≠ some (.matched C) := by
    cases hs
    simp [Session.outcome?, Session.Call.candidate?, Reader.tex, hfail, Except.toOption]
  obtain ⟨C, hC, hkeys⟩ := hmatch
  obtain ⟨hsame, -, hiff, hheld, -⟩ :=
    (session_holds_last_captures hnew calls).1 (.text "a b = \x7b\x7b2\x7d\x7d")
  obtain ⟨hsame', -, hiff', -, hempty⟩ :=
    (session_holds_last_captures hnew calls).1 (.text "a b = \x7b2")
  have hfalse : (s.answer (.text "a b = \x7b2")).1 = false := by
    rw [← Bool.not_eq_true, hiff', not_exists]
    exact hnone
  refine ⟨s, hs, hnew, ?_⟩
  rw [hsame, hsame']
  refine ⟨hiff.mpr ⟨C, hC⟩, ?_, hfalse, hempty hfalse⟩
  rw [(hheld C hC).1, Captures.snapshot, NameMap.keys_map, hkeys]

end FormulaMatch
