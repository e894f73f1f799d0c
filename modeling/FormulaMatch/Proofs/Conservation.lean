import FormulaMatch.Proofs.Assembly
import FormulaMatch.Proofs.Rows

/-! What reading keeps of a text: every character that is not blank, in order. Each stands in a brace or in
a token, and a token is a run of letters and digits, a single symbol or a command. -/

namespace FormulaMatch

open Formula (spaced spacedAfter)

/-- The characters that are not blank. -/
def inked (cs : List Char) : List Char := cs.filter fun c => !isBlank c

inductive TokenText (text : List Char) : Prop
  | word (nonempty : text ≠ []) (alphanumeric : ∀ c ∈ text, isAlphanumeric c = true)
  | symbol {c : Char} (single : text = [c]) (inked : isBlank c = false)
      (other : isAlphanumeric c = false) (plain : Plain c)
  | command {first : Char} {more : List Char} (split : text = '\\' :: first :: more)

def Lexeme.chars : Lexeme → List Char
  | token text => text
  | opening _ => ['{']
  | closing _ => ['}']
  | dangling _ => ['\\']

def Scan.seen : Scan → List Char
  | between => []
  | word seen | escape seen | name seen | sizing seen => seen

/-- What is being read will be a token. -/
inductive Scan.Forms : Scan → Prop
  | between : Forms between
  | word {seen : List Char} (nonempty : seen ≠ []) (alphanumeric : ∀ c ∈ seen, isAlphanumeric c = true) :
      Forms (word seen)
  | escape {seen more : List Char} (split : seen.reverse = '\\' :: more) : Forms (escape seen)
  | name {seen : List Char} {first : Char} {more : List Char}
      (split : seen.reverse = '\\' :: first :: more) : Forms (name seen)
  | sizing {seen : List Char} {first : Char} {more : List Char}
      (split : seen.reverse = '\\' :: first :: more) : Forms (sizing seen)

variable {c : Char} {cs seen : List Char} {offset : Nat} {e : Expr} {row : List Expr}

theorem inked_append (cs ds : List Char) : inked (cs ++ ds) = inked cs ++ inked ds :=
  List.filter_append cs ds

theorem inked_singleton_of_blank (h : isBlank c = true) : inked [c] = [] := by
  simp [inked, h]

namespace Scan

/-- A step from what had been seen of a token and the character after it: no ink is lost, and what is
completed or begun is a token. -/
structure Reads (result : List Lexeme × Scan) (cs : List Char) : Prop where
  kept : inked (result.1.flatMap Lexeme.chars ++ result.2.seen.reverse) = inked cs
  tokens : ∀ text, .token text ∈ result.1 → TokenText text
  forms : result.2.Forms

theorem start_reads (offset : Nat) (c : Char) : Reads (start offset c) [c] := by
  cases starting c with
  | blank blank hs =>
    rw [hs]
    exact ⟨(inked_singleton_of_blank blank).symm, by simp, .between⟩
  | brace brace hs =>
    rw [hs]
    rcases brace with rfl | rfl
    · exact ⟨rfl, by simp [braceAt], .between⟩
    · exact ⟨rfl, by simp [braceAt], .between⟩
  | slash slash hs =>
    subst slash
    rw [hs]
    exact ⟨rfl, by simp, .escape rfl⟩
  | word alphanumeric hs =>
    rw [hs]
    exact ⟨rfl, by simp, .word (by simp) (by simpa using alphanumeric)⟩
  | symbol plain other hs =>
    have hinked : isBlank c = false := by
      rw [← Bool.not_eq_true]
      intro hblank
      have hstart := hs offset
      simp [start, hblank] at hstart
    rw [hs]
    refine ⟨rfl, fun text ht => ?_, .between⟩
    obtain rfl : text = [c] := by simpa using ht
    exact .symbol rfl hinked other plain

theorem finish_reads (h : TokenText seen.reverse) (offset : Nat) (c : Char) :
    Reads (finish seen offset c) (seen.reverse ++ [c]) := by
  obtain ⟨hkept, htokens, hforms⟩ := start_reads offset c
  refine ⟨?_, fun text ht => ?_, hforms⟩
  · rw [inked_append seen.reverse, ← hkept, ← inked_append, ← List.append_assoc]
    rfl
  · rcases List.mem_cons.mp ht with ht | ht
    · cases ht
      exact h
    · exact htokens text ht

theorem delimit_reads {first : Char} {more : List Char} (h : seen.reverse = '\\' :: first :: more)
    (offset : Nat) (c : Char) : Reads (delimit seen offset c) (seen.reverse ++ [c]) := by
  have hsplit : (c :: seen).reverse = '\\' :: first :: (more ++ [c]) := by
    rw [List.reverse_cons, h]
    rfl
  cases delimiting seen c with
  | blank blank hd =>
    rw [hd]
    refine ⟨?_, by simp, .sizing h⟩
    rw [inked_append, inked_append, inked_singleton_of_blank blank, List.append_nil]
    rfl
  | slash slash hd =>
    rw [hd]
    exact ⟨by rw [← List.reverse_cons]; rfl, by simp, .escape hsplit⟩
  | apart _ hd =>
    rw [hd]
    exact finish_reads (.command h) offset c
  | symbol _ _ hd =>
    rw [hd]
    refine ⟨by simp [Lexeme.chars, Scan.seen], fun text ht => ?_, .between⟩
    obtain rfl : text = (c :: seen).reverse := by simpa using ht
    exact .command hsplit

theorem Forms.step_reads {state : Scan} (h : state.Forms) (offset : Nat) (c : Char) :
    Reads (state.step offset c) (state.seen.reverse ++ [c]) := by
  cases h with
  | between => exact start_reads offset c
  | @word seen nonempty alphanumeric =>
    by_cases ha : isAlphanumeric c = true
    · have hstep : (Scan.word seen).step offset c = ([], .word (c :: seen)) := by simp [step, ha]
      rw [hstep, ← List.reverse_cons]
      exact ⟨rfl, by simp, .word (by simp) (List.forall_mem_cons.mpr ⟨ha, alphanumeric⟩)⟩
    · have hstep : (Scan.word seen).step offset c = finish seen offset c := by simp [step, ha]
      rw [hstep]
      exact finish_reads (.word (by simpa using nonempty) (by simpa using alphanumeric)) offset c
  | @escape seen more split =>
    have hsplit : (c :: seen).reverse = '\\' :: (more ++ [c]) := by
      rw [List.reverse_cons, split]
      rfl
    obtain ⟨first, rest, hcons⟩ := List.exists_cons_of_ne_nil (l := more ++ [c]) (by simp)
    rw [hcons] at hsplit
    by_cases hn : isNameChar c = true
    · have hstep : (Scan.escape seen).step offset c = ([], .name (c :: seen)) := by simp [step, hn]
      rw [hstep, ← List.reverse_cons]
      exact ⟨rfl, by simp, .name hsplit⟩
    · have hstep : (Scan.escape seen).step offset c = ([.token (c :: seen).reverse], .between) := by
        simp [step, hn]
      rw [hstep]
      refine ⟨by simp [Lexeme.chars, Scan.seen], fun text ht => ?_, .between⟩
      obtain rfl : text = (c :: seen).reverse := by simpa using ht
      exact .command hsplit
  | @name seen first more split =>
    by_cases hn : isNameChar c = true
    · have hstep : (Scan.name seen).step offset c = ([], .name (c :: seen)) := by simp [step, hn]
      have hsplit : (c :: seen).reverse = '\\' :: first :: (more ++ [c]) := by
        rw [List.reverse_cons, split]
        rfl
      rw [hstep, ← List.reverse_cons]
      exact ⟨rfl, by simp, .name hsplit⟩
    · rw [Bool.not_eq_true] at hn
      cases hs : endsInSizing seen with
      | true =>
        rw [step_name hn hs]
        exact delimit_reads split offset c
      | false =>
        rw [step_name_of_plain hn hs]
        exact finish_reads (.command split) offset c
  | @sizing seen first more split => exact delimit_reads split offset c

theorem Forms.tokenText_stop {state : Scan} (h : state.Forms) {text : List Char}
    (ht : .token text ∈ state.stop offset) : TokenText text := by
  cases h with
  | between => simp [stop] at ht
  | escape => simp [stop] at ht
  | @word seen nonempty alphanumeric =>
    obtain rfl : text = seen.reverse := by simpa [stop] using ht
    exact .word (by simpa using nonempty) (by simpa using alphanumeric)
  | @name seen first more split | @sizing seen first more split =>
    obtain rfl : text = seen.reverse := by simpa [stop] using ht
    exact .command split

theorem Forms.tokenText_run {state : Scan} (h : state.Forms) {text : List Char}
    (ht : .token text ∈ state.run offset cs) : TokenText text := by
  induction cs generalizing state offset with
  | nil => exact h.tokenText_stop ht
  | cons c cs ih =>
    obtain ⟨-, htokens, hforms⟩ := h.step_reads offset c
    rw [run_cons] at ht
    rcases List.mem_append.mp ht with ht | ht
    · exact htokens text ht
    · exact ih hforms ht

theorem chars_stop {state : Scan} (hstop : ∀ n, .dangling n ∉ state.stop offset) :
    (state.stop offset).flatMap Lexeme.chars = state.seen.reverse := by
  cases state with
  | between => rfl
  | escape seen => exact absurd (List.mem_singleton.mpr rfl) (hstop (offset - 1))
  | word seen | name seen | sizing seen => simp [stop, Lexeme.chars, Scan.seen]

theorem Forms.inked_run {state : Scan} (h : state.Forms)
    (hrun : ∀ n, .dangling n ∉ state.run offset cs) :
    inked ((state.run offset cs).flatMap Lexeme.chars) = inked (state.seen.reverse ++ cs) := by
  induction cs generalizing state offset with
  | nil => rw [run_nil, chars_stop hrun, List.append_nil]
  | cons c cs ih =>
    obtain ⟨hkept, -, hforms⟩ := h.step_reads offset c
    rw [run_cons] at hrun ⊢
    have hrest := ih hforms fun n hn => hrun n (List.mem_append_right _ hn)
    rw [List.flatMap_append, inked_append, hrest, inked_append, ← List.append_assoc, ← inked_append,
      hkept, ← inked_append, List.append_assoc]
    rfl

end Scan

theorem IsToken.tokenText {text : List Char} (h : IsToken text) : TokenText text := by
  have hrun := h.run_append .ends 0
  exact Scan.Forms.between.tokenText_run (hrun ▸ List.mem_cons_self)

theorem Readable.tokenText (h : Readable e) {n : Expr} (hn : n ∈ e.preorder)
    (hg : n.isGroup = false) : n.isLeaf = true ∧ TokenText n.text.toList := by
  induction h with
  | @token text token =>
    obtain rfl := List.mem_singleton.mp hn
    refine ⟨rfl, ?_⟩
    rw [show Formula.text _ = String.ofList text from rfl, String.toList_ofList]
    exact token.tokenText
  | @group row readable meets ih =>
    rcases Formula.mem_preorder_iff.mp hn with rfl | ⟨c, hc, hn⟩
    · cases hg
    · exact ih c hc hn

theorem inked_spaced (row : List Expr) : inked (spaced row) = row.flatMap fun e => inked e.chars := by
  cases row with
  | nil => rfl
  | cons e row =>
    rw [spaced, Formula.spacedAfter_eq_flatMap, inked_append, List.flatMap_cons]
    simp only [inked, List.filter_flatMap]
    rfl

/-- The written form of what has been read while groups are open. -/
def OpenGroups.chars (items : List Expr) : OpenGroups → List Char
  | [] => spaced items.reverse
  | (_, before) :: outer => chars before outer ++ '{' :: spaced items.reverse

theorem inked_chars_cons (e : Expr) (items : List Expr) (outer : OpenGroups) :
    inked (outer.chars (e :: items)) = inked (outer.chars items) ++ inked e.chars := by
  have hspaced : inked (spaced (e :: items).reverse) = inked (spaced items.reverse) ++ inked e.chars := by
    simp [inked_spaced]
  cases outer with
  | nil => exact hspaced
  | cons group outer =>
    have hcons : ∀ cs, inked ('{' :: cs) = '{' :: inked cs := fun _ => rfl
    simp only [OpenGroups.chars, inked_append, hcons, hspaced, List.append_assoc, List.cons_append]

theorem inked_chars_group (row : List Expr) :
    inked (Expr.group row).chars = inked ('{' :: spaced row) ++ ['}'] := by
  rw [Formula.chars_group, ← List.cons_append, inked_append]
  rfl

theorem Assembles.inked_chars {ls : List Lexeme} {items : List Expr} {outer : OpenGroups}
    (h : Assembles e items outer ls) :
    inked e.chars = inked (outer.chars items) ++ inked (ls.flatMap Lexeme.chars) := by
  induction h with
  | @done items complete =>
    rw [complete, Formula.chars_sequence]
    exact (List.append_nil _).symm
  | token text _ ih =>
    rw [ih, inked_chars_cons, Expr.chars_leaf, String.toList_ofList, List.flatMap_cons, inked_append,
      List.append_assoc]
    rfl
  | opening offset _ ih =>
    rw [ih, OpenGroups.chars, inked_append, List.flatMap_cons, inked_append, List.append_assoc]
    rfl
  | closing opened offset _ ih =>
    rw [ih, inked_chars_cons, inked_chars_group, OpenGroups.chars, List.flatMap_cons, inked_append,
      inked_append, List.append_assoc, List.append_assoc, List.append_assoc]
    rfl

theorem inked_of_read {text : String} (h : Expr.read text = .ok e) :
    inked e.chars = inked text.toList := by
  have hassembles := assembles_of_assemble h
  rw [hassembles.inked_chars]
  exact Scan.Forms.between.inked_run hassembles.not_dangling

/-- A text that is read has the characters of the formula's written form, blanks aside, in the same order,
and below its root the formula has bare groups and childless tokens alone. -/
theorem reading_loses_nothing {text : String} (h : Expr.read text = .ok e) :
    inked e.render.toList = inked text.toList ∧
    ∀ n ∈ e.preorder.tail, n.isGroup = false → n.isLeaf = true ∧ TokenText n.text.toList := by
  refine ⟨by rw [Formula.toList_render, inked_of_read h], fun n hn hg => ?_⟩
  obtain ⟨row, rfl, hrow⟩ := exists_row_of_read h
  rw [Formula.preorder_eq, List.tail_cons, Formula.preorders_eq_flatMap, List.mem_flatMap] at hn
  obtain ⟨c, hc, hn⟩ := hn
  exact (hrow.readable c hc).tokenText hn hg

/-- Blanks before a delimiter, in a command and between braces. -/
theorem reading_loses_nothing_blanks :
    let text := "\\left  \\|é2\\ \x7b\\right\x7d ,"
    let e : Expr := .sequence [.leaf "\\left\\|", .leaf "é2", .leaf "\\ ",
      .group [.leaf "\\right"], .leaf ","]
    Expr.read text = .ok e ∧ e.render = "\\left\\| é2 \\  \x7b\\right\x7d ," ∧
    inked e.render.toList = inked text.toList ∧
    (Expr.leaf "\\right" ∈ e.preorder.tail ∧ (Expr.leaf "\\right").isGroup = false ∧
      (Expr.leaf "\\right").isLeaf = true ∧ TokenText (Expr.leaf "\\right").text.toList) := by
  intro text e
  have hread : Expr.read text = .ok e := by
    unfold text e
    rfl
  obtain ⟨hinked, htokens⟩ := reading_loses_nothing hread
  have hmem : Expr.leaf "\\right" ∈ e.preorder.tail := List.mem_of_getElem? (i := 4) rfl
  exact ⟨hread, rfl, hinked, hmem, rfl, htokens _ hmem rfl⟩

end FormulaMatch
