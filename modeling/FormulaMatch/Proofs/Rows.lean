import FormulaMatch.Formula.NormalForm
import FormulaMatch.Proofs.Siblings
import FormulaMatch.Proofs.Tokens
import FormulaMatch.Reading

/-! Rows of formulas that are read as they are written. A reading gives such a row, and so are the rows
in it, what stands side by side in one, and what is left of one when repeated braces are dropped. -/

namespace FormulaMatch

def Expr.Meets (e next : Expr) : Prop := Apart e.text.toList next.chars.head?

/-- Tokens and bare groups in which tokens stay apart from what follows them. -/
inductive Readable : Expr → Prop
  | token {text : List Char} (token : IsToken text) : Readable (.leaf (String.ofList text))
  | group {row : List Expr} (readable : ∀ e ∈ row, Readable e) (meets : row.IsChain Expr.Meets) :
      Readable (.group row)

structure Row (row : List Expr) : Prop where
  readable : ∀ e ∈ row, Readable e
  meets : row.IsChain Expr.Meets

namespace Expr

theorem chars_leaf (text : String) : (leaf text).chars = text.toList := by
  by_cases ht : text = ""
  · subst ht
    rfl
  · have hempty : text.isEmpty = false := by simpa using ht
    simp [leaf, make, Formula.chars, Head.isAnonymous, hempty]

theorem text_leaf (text : String) : (leaf text).text = text := rfl

theorem isGroup_leaf (text : String) : (leaf text).isGroup = false := by
  by_cases ht : text = ""
  · subst ht
    rfl
  · have hempty : text.isEmpty = false := by simpa using ht
    simp [leaf, make, Formula.isGroup, Formula.head, Head.isAnonymous, hempty]

theorem normalize_leaf (text : String) : (leaf text).normalize = leaf text := by
  have h := isGroup_leaf text
  unfold leaf make at h ⊢
  rw [Formula.normalize_node, List.map_nil, Formula.unwrap, h]
  rfl

theorem apart_group (text : List Char) (row : List Expr) : Apart text (group row).chars.head? := by
  intro _
  rw [Formula.chars_group]
  exact ⟨'{', rfl, rfl⟩

end Expr

variable {row : List Expr} {e : Expr}

theorem row_nil : Row [] := ⟨by simp, .nil⟩

theorem Row.of_isInfix (h : Row row) {run : List Expr} (hr : run <:+: row) : Row run := by
  refine ⟨fun e he => h.readable e (hr.subset he), ?_⟩
  obtain ⟨before, after, rfl⟩ := hr
  exact h.meets.left_of_append.right_of_append

theorem Row.concat (h : Row row) (he : Readable e) (hm : ∀ last ∈ row.getLast?, last.Meets e) :
    Row (row ++ [e]) := by
  refine ⟨fun f hf => ?_, h.meets.append (.singleton e) fun last hl f hf => ?_⟩
  · rcases List.mem_append.mp hf with hf | hf
    · exact h.readable f hf
    · rwa [List.mem_singleton.mp hf]
  · obtain rfl : e = f := by simpa using hf
    exact hm last hl

theorem Readable.row_of_mem_preorder (h : Readable e) {n : Expr} (hn : n ∈ e.preorder) : Row n.children := by
  induction h with
  | @token text token =>
    obtain rfl := List.mem_singleton.mp hn
    exact row_nil
  | @group row readable meets ih =>
    rcases Formula.mem_preorder_iff.mp hn with rfl | ⟨c, hc, hn⟩
    · exact ⟨readable, meets⟩
    · exact ih c hc hn

theorem Row.of_mem_preorder (h : Row row) {n : Expr} (hn : n ∈ (Expr.sequence row).preorder) :
    Row n.children := by
  rcases Formula.mem_preorder_iff.mp hn with rfl | ⟨c, hc, hn⟩
  · exact h
  · exact (h.readable c hc).row_of_mem_preorder hn

theorem unwrap_group (h : ∀ e ∈ row, Readable e) : (Expr.group row).unwrap = Expr.group row ∨
    ∃ inner, row = [Expr.group inner] ∧ (Expr.group row).unwrap = Expr.group inner := by
  match row, h with
  | [], _ => exact .inl rfl
  | [e], h =>
    cases h e (by simp) with
    | @token text token =>
      refine .inl ?_
      rw [Formula.unwrap]
      simp [Expr.group, Expr.make, Formula.children, Expr.isGroup_leaf]
    | @group inner readable meets => exact .inr ⟨inner, rfl, rfl⟩
  | _ :: _ :: _, _ => exact .inl rfl

theorem normalize_group (row : List Expr) :
    (Expr.group row).normalize = (Expr.group (row.map Formula.normalize)).unwrap :=
  Formula.normalize_node _ _ _

theorem isChain_map_normalize (h : row.IsChain Expr.Meets) (hrow : ∀ e ∈ row,
    e.normalize.text = e.text ∧ e.normalize.chars.head? = e.chars.head?) :
    (row.map Formula.normalize).IsChain Expr.Meets := by
  rw [List.isChain_map]
  refine h.imp_of_mem_imp fun a b ha hb hab => ?_
  rwa [Expr.Meets, (hrow a ha).1, (hrow b hb).2]

/-- A formula in normal form has the same text, and its written form begins as before. -/
theorem Readable.normalize (h : Readable e) : Readable e.normalize ∧ e.normalize.text = e.text ∧
    e.normalize.chars.head? = e.chars.head? := by
  induction h with
  | @token text token =>
    rw [Expr.normalize_leaf]
    exact ⟨.token token, rfl, rfl⟩
  | @group row readable meets ih =>
    have hall : ∀ e ∈ row.map Formula.normalize, Readable e :=
      List.forall_mem_map.mpr fun e he => (ih e he).1
    rw [normalize_group]
    rcases unwrap_group hall with hu | ⟨inner, hrow, hu⟩
    · rw [hu, Formula.chars_group, Formula.chars_group]
      exact ⟨.group hall (isChain_map_normalize meets fun e he => (ih e he).2), rfl, rfl⟩
    · rw [hu, Formula.chars_group, Formula.chars_group]
      exact ⟨hall _ (by simp [hrow]), rfl, rfl⟩

theorem Row.map_normalize (h : Row row) : Row (row.map Formula.normalize) :=
  ⟨List.forall_mem_map.mpr fun e he => (h.readable e he).normalize.1,
    isChain_map_normalize h.meets fun e he => (h.readable e he).normalize.2⟩

theorem normalize_sequence (row : List Expr) :
    (Expr.sequence row).normalize = Expr.sequence (row.map Formula.normalize) := by
  rw [Expr.sequence, Expr.make, Formula.normalize_node]
  rfl

/-- The row so far is `items`, last first, and stays apart from the lexemes to come. -/
theorem row_of_assemble {ls : List Lexeme} {items : List Expr} {outer : OpenGroups}
    (h : assemble items outer ls = .ok e) (hl : Orderly ls) (hi : Row items.reverse)
    (hn : ∀ last ∈ items.head?, ∀ l ∈ ls.head?, Apart last.text.toList l.first?)
    (ho : ∀ group ∈ outer, Row group.2.reverse) : ∃ row, e = Expr.sequence row ∧ Row row := by
  induction ls generalizing items outer with
  | nil =>
    cases outer with
    | nil =>
      simp only [assemble, Except.ok.injEq] at h
      exact ⟨_, h.symm, hi⟩
    | cons group outer => simp [assemble] at h
  | cons l ls ih =>
    have htail : Orderly ls := hl.of_cons
    cases l with
    | token text =>
      refine ih h htail ?_ ?_ ho
      · rw [List.reverse_cons]
        refine hi.concat (.token (hl.tokens text (by simp))) fun last hlast => ?_
        rw [List.getLast?_reverse] at hlast
        rw [Expr.Meets, Expr.chars_leaf, String.toList_ofList]
        exact hn last hlast _ rfl
      · intro last hlast next hnext
        obtain rfl : Expr.leaf (String.ofList text) = last := by simpa using hlast
        rw [Expr.text_leaf, String.toList_ofList]
        exact (List.isChain_cons.mp hl.apart).1 next hnext text rfl
    | opening offset => exact ih h htail row_nil (by simp) (List.forall_mem_cons.mpr ⟨hi, ho⟩)
    | closing offset =>
      cases outer with
      | nil => simp [assemble] at h
      | cons group outer =>
        obtain ⟨hgroup, ho⟩ := List.forall_mem_cons.mp ho
        refine ih h htail ?_ ?_ ho
        · rw [List.reverse_cons]
          exact hgroup.concat (.group hi.readable hi.meets) fun last _ => Expr.apart_group _ _
        · intro last hlast next _
          obtain rfl : Expr.group items.reverse = last := by simpa using hlast
          exact fun hs => absurd (show endsInSizing [] = true from hs) (by decide)
    | dangling offset => simp [assemble] at h

theorem exists_row_of_read {text : String} (h : Expr.read text = .ok e) :
    ∃ row, e = Expr.sequence row ∧ Row row :=
  row_of_assemble h (orderly_lexemes text.toList) row_nil (by simp) (by simp)

end FormulaMatch
