import FormulaMatch.Proofs.Acceptance
import FormulaMatch.Proofs.Assembly
import FormulaMatch.Proofs.Rows

/-! Texts with blanks between them. A blank ends every token but a command that still takes a delimiter, so
the lexemes of the second text are what they are by themselves, only further on, and the reader works
on them above the row that it made of the first. -/

namespace FormulaMatch

def ReadError.shift (bytes : Nat) : ReadError → ReadError
  | unclosedGroup n => .unclosedGroup (bytes + n)
  | strayBrace n => .strayBrace (bytes + n)
  | trailingBackslash n => .trailingBackslash (bytes + n)

def Lexeme.shift (bytes : Nat) : Lexeme → Lexeme
  | token text => .token text
  | opening n => .opening (bytes + n)
  | closing n => .closing (bytes + n)
  | dangling n => .dangling (bytes + n)

/-- The expressions that stand side by side at the top. -/
def Expr.topLevel (e : Expr) : List Expr := (Tree.ofExpr e).topLevel.map Formula.unlabel

/-- What reading a text comes to after `row`, which took `bytes` bytes. -/
def readAfter (row : List Expr) (bytes : Nat) : Except ReadError Expr → Except ReadError Expr
  | .ok e => .ok (.sequence (row ++ e.children))
  | .error fault => .error (fault.shift bytes)

variable {c : Char} {cs blanks : List Char} {offset bytes : Nat}

theorem endsInSizing_reverse (text : List Char) : endsInSizing text.reverse = true ↔
    "\\left".toList <:+ text ∨ "\\right".toList <:+ text := by
  rw [endsInSizing, Bool.or_eq_true, List.isPrefixOf_iff_prefix, List.isPrefixOf_iff_prefix,
    show "tfel\\".toList = "\\left".toList.reverse from rfl,
    show "thgir\\".toList = "\\right".toList.reverse from rfl, List.reverse_prefix, List.reverse_prefix]

namespace Scan

theorem start_shift (bytes offset : Nat) (c : Char) : start (bytes + offset) c =
    ((start offset c).1.map (Lexeme.shift bytes), (start offset c).2) := by
  cases starting c with
  | blank _ hs | slash _ hs | word _ hs | symbol _ _ hs => rw [hs, hs]; rfl
  | brace brace hs =>
    rw [hs, hs]
    rcases brace with rfl | rfl <;> rfl

theorem finish_shift (seen : List Char) (bytes offset : Nat) (c : Char) : finish seen (bytes + offset) c =
    ((finish seen offset c).1.map (Lexeme.shift bytes), (finish seen offset c).2) := by
  rw [finish, start_shift]
  rfl

theorem delimit_shift (seen : List Char) (bytes offset : Nat) (c : Char) : delimit seen (bytes + offset) c =
    ((delimit seen offset c).1.map (Lexeme.shift bytes), (delimit seen offset c).2) := by
  cases delimiting seen c with
  | blank _ hd | slash _ hd | symbol _ _ hd => rw [hd, hd]; rfl
  | apart _ hd => rw [hd, hd, finish_shift]

theorem step_shift (state : Scan) (bytes offset : Nat) (c : Char) : state.step (bytes + offset) c =
    ((state.step offset c).1.map (Lexeme.shift bytes), (state.step offset c).2) := by
  cases state with
  | between => exact start_shift bytes offset c
  | word seen =>
    simp only [step]
    split
    · rfl
    · exact finish_shift seen bytes offset c
  | escape seen =>
    simp only [step]
    split <;> rfl
  | name seen =>
    simp only [step]
    split
    · rfl
    · split
      · exact delimit_shift seen bytes offset c
      · exact finish_shift seen bytes offset c
  | sizing seen => exact delimit_shift seen bytes offset c

/-- A backslash that is reported at the end stands before it, so some byte must have been read. -/
theorem run_shift {state : Scan} (hs : state.skips = true → 0 < offset) (bytes : Nat) (cs : List Char) :
    state.run (bytes + offset) cs = (state.run offset cs).map (Lexeme.shift bytes) := by
  induction cs generalizing state offset with
  | nil =>
    cases state with
    | escape seen =>
      have hoffset : bytes + offset - 1 = bytes + (offset - 1) := Nat.add_sub_assoc (hs rfl) bytes
      simp [stop, Lexeme.shift, hoffset]
    | _ => rfl
  | cons c cs ih =>
    have hpos : 0 < offset + c.utf8Size := Nat.add_pos_right offset c.utf8Size_pos
    rw [run_cons, run_cons, step_shift, List.map_append, Nat.add_assoc, ih fun _ => hpos]

theorem run_between (bytes : Nat) (cs : List Char) :
    between.run bytes cs = (lexemes cs).map (Lexeme.shift bytes) := by
  have hskips : between.skips = true → 0 < 0 := fun hs => Bool.noConfusion hs
  exact run_shift hskips bytes cs

theorem Spelled.of_start (offset : Nat) (c : Char) : (start offset c).2.Spelled := by
  rcases start_cases c with (⟨spelled, hs⟩ | ⟨_, _, hs⟩) | rfl | rfl
  · rw [show start offset c = _ from hs offset]
    exact spelled
  · rw [show start offset c = _ from hs offset]
    exact .between
  · exact .between
  · exact .between

theorem Spelled.step {state : Scan} (h : state.Spelled) (offset : Nat) (c : Char) :
    (state.step offset c).2.Spelled := by
  rcases h.step_cases c with rfl | (⟨spelled, hs⟩ | ⟨_, _, hs⟩) | ⟨seen, _, _, hs⟩
  · exact .of_start offset c
  · rw [hs]
    exact spelled
  · rw [hs]
    exact .between
  · rw [hs]
    exact .of_start offset c

/-- What a text leaves to complete, and the lexemes that are complete by then, whatever follows. -/
theorem Spelled.exists_run {state : Scan} (h : state.Spelled) (offset : Nat) (cs : List Char) :
    ∃ ls last, Spelled last ∧
      ∀ rest, state.run offset (cs ++ rest) = ls ++ last.run (offset + byteLength cs) rest := by
  induction cs generalizing state offset with
  | nil => exact ⟨[], state, h, fun rest => rfl⟩
  | cons c cs ih =>
    obtain ⟨ls, last, hlast, hrun⟩ := ih (h.step offset c) (offset + c.utf8Size)
    refine ⟨(state.step offset c).1 ++ ls, last, hlast, fun rest => ?_⟩
    rw [List.cons_append, run_cons, hrun, byteLength, Nat.add_assoc, List.append_assoc]

theorem run_blanks (h : ∀ c ∈ blanks, isBlank c = true) (offset : Nat) (rest : List Char) :
    between.run offset (blanks ++ rest) = between.run (offset + byteLength blanks) rest := by
  induction blanks generalizing offset with
  | nil => rfl
  | cons c blanks ih =>
    obtain ⟨hc, hblanks⟩ := List.forall_mem_cons.mp h
    rw [List.cons_append, run_of_blank hc, ih hblanks, byteLength, Nat.add_assoc]

theorem Spelled.run_blank {state : Scan} (h : state.Spelled) (hs : state.skips = false)
    (hplain : ∀ text, .token text ∈ state.stop offset → endsInSizing text.reverse = false)
    (hc : isBlank c = true) (rest : List Char) :
    state.run offset (c :: rest) = state.stop offset ++ Scan.between.run offset (c :: rest) := by
  have halpha : isAlphanumeric c = false := isAlphanumeric_eq_false_of_isBlank hc
  cases h with
  | between => rfl
  | escape => cases hs
  | @word seen whole gathers =>
    have hstep : (Scan.word seen).step offset c = finish seen offset c := by simp [Scan.step, halpha]
    exact run_of_finish hstep rest
  | @name seen gathers =>
    have hseen := hplain seen.reverse (List.mem_singleton.mpr rfl)
    rw [List.reverse_reverse] at hseen
    exact run_of_finish (step_name_of_plain (isNameChar_eq_false halpha) hseen) rest
  | @sizing seen sizes gathers =>
    have hseen := hplain seen.reverse (List.mem_singleton.mpr rfl)
    rw [List.reverse_reverse, sizes] at hseen
    cases hseen

end Scan

/-- The lexemes of a text after another and blanks, where the first ends in no backslash that counts and
in no command that takes a delimiter. -/
theorem lexemes_append (hstop : ∀ n, .dangling n ∉ lexemes cs)
    (hlast : ∀ text, (lexemes cs).getLast? = some (.token text) → endsInSizing text.reverse = false)
    (hne : blanks ≠ []) (hblanks : ∀ c ∈ blanks, isBlank c = true) (ds : List Char) :
    lexemes (cs ++ blanks ++ ds) =
      lexemes cs ++ (lexemes ds).map (Lexeme.shift (byteLength (cs ++ blanks))) := by
  obtain ⟨ls, last, hspelled, hrun⟩ := Scan.Spelled.between.exists_run 0 cs
  rw [Nat.zero_add] at hrun
  have hcs : lexemes cs = ls ++ last.stop (byteLength cs) := by
    rw [lexemes, ← List.append_nil cs, hrun, List.append_nil]
    rfl
  have hskips : last.skips = false := by
    cases last with
    | escape seen =>
      exact absurd (hcs ▸ List.mem_append_right ls (List.mem_singleton.mpr rfl)) (hstop _)
    | _ => rfl
  have hplain : ∀ text, .token text ∈ last.stop (byteLength cs) → endsInSizing text.reverse = false := by
    intro text ht
    have hsingle : last.stop (byteLength cs) = [.token text] := by
      cases last with
      | between => simp [Scan.stop] at ht
      | escape seen => simp [Scan.stop] at ht
      | word seen | name seen | sizing seen => simpa [Scan.stop, eq_comm] using ht
    exact hlast text (by rw [hcs, hsingle, List.getLast?_concat])
  obtain ⟨c, blanks, rfl⟩ := List.exists_cons_of_ne_nil hne
  have hc : isBlank c = true := hblanks c List.mem_cons_self
  rw [lexemes, List.append_assoc, hrun, List.cons_append,
    hspelled.run_blank hskips hplain hc, ← List.cons_append, Scan.run_blanks hblanks,
    ← byteLength_append, Scan.run_between, hcs, List.append_assoc]

variable {items : List Expr} {outer : OpenGroups} {ls : List Lexeme} {e : Expr}

/-- What is being read, by itself and above the row `base`, whose text takes `bytes` bytes. -/
inductive Over (base : List Expr) (bytes : Nat) : List Expr → OpenGroups → List Expr → OpenGroups → Prop
  | level (items : List Expr) : Over base bytes items [] (items ++ base.reverse) []
  | within {before before' : List Expr} {outer outer' : OpenGroups} (items : List Expr) (offset : Nat)
      (rest : Over base bytes before outer before' outer') :
      Over base bytes items ((offset, before) :: outer) items ((bytes + offset, before') :: outer')

theorem Over.cons {base items' : List Expr} {outer' : OpenGroups}
    (h : Over base bytes items outer items' outer') (e : Expr) :
    Over base bytes (e :: items) outer (e :: items') outer' := by
  cases h with
  | level items => exact .level (e :: items)
  | within items offset rest => exact .within (e :: items) offset rest

theorem Over.assemble_eq {base items' : List Expr} {outer' : OpenGroups}
    (h : Over base bytes items outer items' outer') :
    assemble items' outer' (ls.map (Lexeme.shift bytes)) =
      readAfter base bytes (assemble items outer ls) := by
  induction ls generalizing items outer items' outer' with
  | nil =>
    cases h with
    | level items => simp [assemble, readAfter, Expr.sequence, Expr.make, Formula.children]
    | within items offset rest => rfl
  | cons l ls ih =>
    cases l with
    | token text => exact ih (h.cons _)
    | opening offset => exact ih (.within [] offset h)
    | closing offset =>
      cases h with
      | level items => rfl
      | within items offset rest => exact ih (rest.cons _)
    | dangling offset => rfl

theorem topLevel_sequence (row : List Expr) : (Expr.sequence row).topLevel = row :=
  Tree.topLevel_ofExpr_sequence row

theorem topLevel_of_read {source : String} (h : Expr.read source = .ok e) : e.topLevel = e.children := by
  obtain ⟨row, rfl, -⟩ := exists_row_of_read h
  exact topLevel_sequence row

/-- Blanks after a text whose last token takes no more keep what follows them from changing how it is read. -/
theorem read_append {first second : String} (h : Expr.read first = .ok e)
    (hlast : ∀ last ∈ e.topLevel.getLast?,
      ¬ "\\left".toList <:+ last.text.toList ∧ ¬ "\\right".toList <:+ last.text.toList)
    {gap : String} (hne : gap ≠ "") (hgap : ∀ c ∈ gap.toList, isBlank c = true) :
    Expr.read (first ++ gap ++ second) =
      readAfter e.topLevel (first ++ gap).utf8ByteSize (Expr.read second) := by
  have hassembles := assembles_of_assemble h
  have hplain : ∀ text, (lexemes first.toList).getLast? = some (.token text) →
      endsInSizing text.reverse = false := by
    intro text ht
    have hleaf := hassembles.getLast?_children ht
    have htext : (Expr.leaf (String.ofList text)).text.toList = text := String.toList_ofList
    rw [← topLevel_of_read h] at hleaf
    rw [← Bool.not_eq_true, endsInSizing_reverse, not_or, ← htext]
    exact hlast _ hleaf
  have hover : Over e.topLevel (first ++ gap).utf8ByteSize [] [] e.topLevel.reverse [] := .level []
  rw [Expr.read, String.toList_append, String.toList_append,
    lexemes_append hassembles.not_dangling hplain (by simpa using hne) hgap, hassembles.assemble_append,
    ← topLevel_of_read h, ← String.toList_append, byteLength_toList, hover.assemble_eq]
  rfl

/-- After a text that is read and blanks, where its last token ends in no `\left` or `\right`, another text
is read as it is by itself: what it is read as stands behind what the first is read as, and a fault is
found as many bytes further on as the first text and the blanks take. -/
theorem reading_is_compositional {first gap : String} (h : Expr.read first = .ok e)
    (hlast : ∀ last ∈ e.topLevel.getLast?,
      ¬ "\\left".toList <:+ last.text.toList ∧ ¬ "\\right".toList <:+ last.text.toList)
    (hne : gap ≠ "") (hgap : ∀ c ∈ gap.toList, isBlank c = true) (second : String) :
    ((∃ g, Expr.read (first ++ gap ++ second) = .ok g) ↔ ∃ f, Expr.read second = .ok f) ∧
    (∀ g f, Expr.read (first ++ gap ++ second) = .ok g → Expr.read second = .ok f →
      g.topLevel = e.topLevel ++ f.topLevel) ∧
    ∀ fault, Expr.read second = .error fault →
      Expr.read (first ++ gap ++ second) = .error (fault.shift (first ++ gap).utf8ByteSize) := by
  rw [read_append h hlast hne hgap]
  cases hs : Expr.read second with
  | ok f => simp [readAfter, topLevel_sequence, topLevel_of_read hs]
  | error fault => simp [readAfter]

/-- The first text ends in a command that ends in a blank itself, and a blank of three bytes follows. -/
theorem reading_is_compositional_command :
    let first := "é \\left\\ "
    let gap := "\u3000"
    let e : Expr := .sequence [.leaf "é", .leaf "\\left\\ "]
    Expr.read first = .ok e ∧
    (∀ last ∈ e.topLevel.getLast?,
      ¬ "\\left".toList <:+ last.text.toList ∧ ¬ "\\right".toList <:+ last.text.toList) ∧
    gap ≠ "" ∧ (∀ c ∈ gap.toList, isBlank c = true) ∧
    (∃ g, Expr.read (first ++ gap ++ "\\right ]") = .ok g ∧
      g.topLevel = [.leaf "é", .leaf "\\left\\ ", .leaf "\\right]"]) ∧
    Expr.read (first ++ gap ++ "b\x7d") = .error (.strayBrace 14) := by
  intro first gap e
  have hread : Expr.read first = .ok e := by
    unfold first e
    rfl
  have hlast : ∀ last ∈ e.topLevel.getLast?,
      ¬ "\\left".toList <:+ last.text.toList ∧ ¬ "\\right".toList <:+ last.text.toList := by
    intro last hmem
    obtain rfl : Expr.leaf "\\left\\ " = last := Option.some.inj hmem
    decide
  have hgap : ∀ c ∈ gap.toList, isBlank c = true := by
    intro c hc
    have htext : gap.toList = ['\u3000'] := by simp [gap]
    obtain rfl : c = '\u3000' := by simpa [htext] using hc
    rfl
  have hright : Expr.read "\\right ]" = .ok (.sequence [.leaf "\\right]"]) := rfl
  have hstray : Expr.read "b\x7d" = .error (.strayBrace 1) := rfl
  obtain ⟨hiff, hrow, -⟩ := reading_is_compositional hread hlast (by decide) hgap "\\right ]"
  obtain ⟨-, -, hfault⟩ := reading_is_compositional hread hlast (by decide) hgap "b\x7d"
  obtain ⟨g, hg⟩ := hiff.mpr ⟨_, hright⟩
  exact ⟨hread, hlast, by decide, hgap, ⟨g, hg, hrow g _ hg hright⟩, hfault _ hstray⟩

end FormulaMatch
