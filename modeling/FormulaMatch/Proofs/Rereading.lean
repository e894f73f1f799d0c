import FormulaMatch.Proofs.Provenance
import FormulaMatch.Proofs.Rows

/-! Reading what was written. Rows are read from their written forms one formula after the other, inside
a group as at the top, so a formula that was read, its normal form and any siblings in either of
them are read again as they are. -/

namespace FormulaMatch

open Formula (spaced spacedAfter)

variable {row : List Expr} {e : Expr}

/-- Where a token may end after its text, reading its written form adds `e` to the items. -/
def Rereads (e : Expr) : Prop :=
  ∀ rest items outer offset, Separates e.text.toList rest →
    assemble items outer (Scan.between.run offset (e.chars ++ rest)) =
      assemble (e :: items) outer (Scan.between.run (offset + byteLength e.chars) rest)

theorem separates_spaced {next : Expr} (h : e.Meets next) (row : List Expr) (rest : List Char) :
    Separates e.text.toList (' ' :: (spaced (next :: row) ++ rest)) := by
  refine .blank fun hs => ?_
  obtain ⟨c, hc, ha⟩ := h hs
  obtain ⟨more, hmore⟩ := List.head?_eq_some_iff.mp hc
  exact ⟨c, by simp [spaced, hmore], ha⟩

theorem assemble_opening (items : List Expr) (outer : OpenGroups) (offset : Nat) (rest : List Char) :
    assemble items outer (Scan.between.run offset ('{' :: rest)) =
      assemble [] ((offset, items) :: outer) (Scan.between.run (offset + '{'.utf8Size) rest) := rfl

theorem assemble_closing (items before : List Expr) (opened : Nat) (outer : OpenGroups) (offset : Nat)
    (rest : List Char) :
    assemble items ((opened, before) :: outer) (Scan.between.run offset ('}' :: rest)) =
      assemble (Expr.group items.reverse :: before) outer
        (Scan.between.run (offset + '}'.utf8Size) rest) := rfl

theorem assemble_spaced (hrow : ∀ e ∈ row, Rereads e) (meets : row.IsChain Expr.Meets)
    {rest : List Char} (hrest : ∀ text, Separates text rest) (items : List Expr) (outer : OpenGroups)
    (offset : Nat) :
    assemble items outer (Scan.between.run offset (spaced row ++ rest)) =
      assemble (row.reverse ++ items) outer
        (Scan.between.run (offset + byteLength (spaced row)) rest) := by
  -- The induction is on the row: what follows a formula in it is a blank, or else what ends the row.
  induction row generalizing items offset with
  | nil => rfl
  | cons e row ih =>
    obtain ⟨he, hrow⟩ := List.forall_mem_cons.mp hrow
    cases row with
    | nil =>
      rw [spaced, spacedAfter, List.append_nil]
      exact he rest items outer offset (hrest _)
    | cons next row =>
      obtain ⟨hmeets, meets⟩ := List.isChain_cons_cons.mp meets
      have hsplit : spaced (e :: next :: row) = e.chars ++ ' ' :: spaced (next :: row) := rfl
      have hitems : (e :: next :: row).reverse ++ items = (next :: row).reverse ++ e :: items := by simp
      rw [hsplit, List.append_assoc, List.cons_append, he _ _ _ _ (separates_spaced hmeets row rest),
        Scan.run_of_blank rfl, ih hrow meets, hitems, byteLength_append, byteLength, Nat.add_assoc,
        Nat.add_assoc]

theorem Readable.rereads (h : Readable e) : Rereads e := by
  induction h with
  | @token text token =>
    intro rest items outer offset hs
    rw [Expr.text_leaf, String.toList_ofList] at hs
    rw [Expr.chars_leaf, String.toList_ofList, token.run_append hs]
    rfl
  | @group row readable meets ih =>
    intro rest items outer offset _
    have hrest : ∀ text, Separates text ('}' :: rest) := fun _ => .closing rest
    have hinside := assemble_spaced ih meets hrest [] ((offset, items) :: outer) (offset + '{'.utf8Size)
    have hwritten : (Expr.group row).chars ++ rest = '{' :: (spaced row ++ '}' :: rest) := by
      rw [Formula.chars_group, List.cons_append, List.append_assoc]
      rfl
    have hbytes : offset + byteLength (Expr.group row).chars =
        offset + '{'.utf8Size + byteLength (spaced row) + '}'.utf8Size := by
      rw [Formula.chars_group, byteLength, byteLength_append, Nat.add_assoc, Nat.add_assoc]
      rfl
    rw [hwritten, hbytes, assemble_opening, hinside, List.append_nil, assemble_closing,
      List.reverse_reverse]

theorem Row.read_renderAll (h : Row row) : Expr.read (Formula.renderAll row) = .ok (Expr.sequence row) := by
  have hread := assemble_spaced (fun e he => (h.readable e he).rereads) h.meets (fun _ => .ends) [] [] 0
  rw [List.append_nil, List.append_nil] at hread
  rw [Expr.read, Formula.toList_renderAll, lexemes, hread]
  simp [Scan.stop, assemble]

theorem render_sequence (row : List Expr) : (Expr.sequence row).render = Formula.renderAll row := by
  rw [Formula.render, Formula.chars_sequence, Formula.renderAll]

theorem Row.read_render (h : Row row) : Expr.read (Expr.sequence row).render = .ok (Expr.sequence row) := by
  rw [render_sequence]
  exact h.read_renderAll

theorem Formula.preorder_unlabel {ι : Type} (f : Formula ι) : f.unlabel.preorder = f.preorder.map unlabel := by
  induction f using induction with
  | node i h cs ih =>
    rw [unlabel_node, preorder, preorder, preorders_eq_flatMap, preorders_eq_flatMap, List.map_cons,
      List.map_flatMap, List.flatMap_map, unlabel_node, List.flatMap_congr ih]

/-- What the nodes of a run write is read as the expressions they stand for. -/
theorem Row.read_renderAll_of_rowIn (h : Row row) {run : List Node}
    (hr : RowIn (Tree.ofExpr (.sequence row)).topLevel run) :
    Expr.read (Formula.renderAll run) = .ok (Expr.sequence (run.map Formula.unlabel)) := by
  have hroot : ∃ n ∈ (Tree.ofExpr (.sequence row)).nodes, run <:+: n.children := by
    rcases hr with hr | ⟨c, hc, n, hn, hr⟩
    · exact ⟨_, Formula.mem_preorder_self _, hr⟩
    · exact ⟨n, Tree.mem_nodes_of_topLevel hc hn, hr⟩
  obtain ⟨n, hn, hrun⟩ := hroot
  have hmem : n.unlabel ∈ (Expr.sequence row).preorder := by
    rw [← Formula.unlabel_expr (Expr.sequence row), ← Formula.unlabel_numberFrom (Expr.sequence row) 0,
      Formula.preorder_unlabel]
    exact List.mem_map_of_mem hn
  have hchildren : run.map Formula.unlabel <:+: n.unlabel.children := by
    rw [Formula.children_unlabel]
    exact hrun.map _
  have hread := ((h.of_mem_preorder hmem).of_isInfix hchildren).read_renderAll
  rwa [Formula.renderAll, Formula.spaced_map_unlabel] at hread

theorem Hit.Holds.rowIn {options : Options} {ps : List Part} {sequence : List Node} {hit : Hit}
    (h : hit.Holds options ps sequence) {name : String} {run : List Node}
    (hr : hit.captures.get? name = some run) : RowIn sequence run := by
  obtain ⟨taken, ht⟩ := takes_of_matchParts h.run
  obtain ⟨used, hused, hall⟩ := ht.rowIn
  have hin : used <:+: sequence.drop hit.start := hused ▸ (List.prefix_append used _).isInfix
  exact (hall _ (ht.mem_of_get? hr)).2.mono (hin.trans (List.drop_suffix _ _).isInfix)

/-- What a pattern captures in a tree, matching it as a whole or in some search. -/
def Pattern.Captured (p : Pattern) (t : Tree) (options : Options) (C : Captures) : Prop :=
  p.matchWhole t options = .matched C ∨
    ∃ s hit, Search.Reached p t options s ∧ s.hit = some hit ∧ hit.captures = C

theorem Pattern.Captured.rowIn {p : Pattern} {t : Tree} {options : Options} {C : Captures}
    (h : p.Captured t options C) {name : String} {run : List Node} (hr : C.get? name = some run) :
    RowIn t.topLevel run := by
  rcases h with h | ⟨s, hit, hs, hh, rfl⟩
  · by_cases hp : p.topLevel = []
    · obtain ⟨-, rfl⟩ := matchWhole_of_topLevel_eq_nil hp h
      simp at hr
    · obtain ⟨hit, hhit, rfl⟩ := holds_of_matchWhole hp h
      exact hhit.rowIn hr
  · exact (hs.holds hh).2.rowIn hr

/-- A formula that was read from a text, or its normal form, is read again from what it is written as.
So is the sequence of any children of a node in it that stand side by side, and the string of a
capture is read as what was captured. -/
theorem rendering_reads_back {text : String} {e f : Expr} (h : Expr.read text = .ok e)
    (hf : f = e ∨ f = e.normalize) :
    Expr.read f.render = .ok f ∧
    (∀ n ∈ f.preorder, ∀ run, run <:+: n.children →
      Expr.read (Expr.sequence run).render = .ok (Expr.sequence run)) ∧
    ∀ (p : Pattern) (options : Options) (C : Captures), p.Captured (.ofExpr f) options C →
      ∀ name string, C.strings.get? name = some string →
        ∃ run, C.snapshot.get? name = some run ∧ Expr.read string = .ok (Expr.sequence run) := by
  have hrow : ∃ row, f = Expr.sequence row ∧ Row row := by
    obtain ⟨row, rfl, hrow⟩ := exists_row_of_read h
    rcases hf with rfl | rfl
    · exact ⟨row, rfl, hrow⟩
    · exact ⟨_, normalize_sequence row, hrow.map_normalize⟩
  obtain ⟨row, rfl, hrow⟩ := hrow
  refine ⟨hrow.read_render, fun n hn run hrun => ?_, fun p options C hC name string hs => ?_⟩
  · exact ((hrow.of_mem_preorder hn).of_isInfix hrun).read_render
  · rw [Captures.strings, NameMap.get?_map, Option.map_eq_some_iff] at hs
    obtain ⟨run, hr, rfl⟩ := hs
    refine ⟨run.map Formula.unlabel, ?_, hrow.read_renderAll_of_rowIn (hC.rowIn hr)⟩
    rw [Captures.snapshot, NameMap.get?_map, hr]
    rfl

/-- The pattern `w = v` in a text with a delimiter after a blank, a command that finds none and braces
that are repeated. -/
theorem rendering_reads_back_delimiters :
    let text := "a = \\left \\|\x7b\x7b\\right\x7b2\x7d\x7d\x7d"
    let inner : List Expr := [.leaf "\\right", .group [.leaf "2"]]
    let e : Expr := .sequence [.leaf "a", .leaf "=", .leaf "\\left\\|", .group [.group inner]]
    let f : Expr := .sequence [.leaf "a", .leaf "=", .leaf "\\left\\|", .group inner]
    let p : Pattern := ⟨.literal 0 ⟨"", .sequence, .empty⟩ [.wildcard 1 ⟨"w", .letter, .empty⟩,
      .literal 2 ⟨"=", .operator, .empty⟩ [], .wildcard 3 ⟨"v", .letter, .empty⟩], []⟩
    Expr.read text = .ok e ∧ f = e.normalize ∧ Expr.read f.render = .ok f ∧
    (Expr.group inner ∈ f.preorder ∧ inner <:+: (Expr.group inner).children ∧
      Expr.read (Expr.sequence inner).render = .ok (.sequence inner)) ∧
    ∃ C string run, p.Captured (.ofExpr f) .exact C ∧ C.strings.get? "v" = some string ∧
      string = "\\left\\| \x7b\\right \x7b2\x7d\x7d" ∧ C.snapshot.get? "v" = some run ∧
      Expr.read string = .ok (.sequence run) := by
  intro text inner e f p
  have hread : Expr.read text = .ok e := by
    unfold text e inner
    rfl
  have hnormal : f = e.normalize := rfl
  obtain ⟨hf, hrows, hcaptured⟩ := rendering_reads_back hread (.inr hnormal)
  have hmem : Expr.group inner ∈ f.preorder :=
    Formula.mem_preorder_of_child (by simp [f, Expr.sequence, Expr.make, Formula.children])
      (Formula.mem_preorder_self _)
  obtain ⟨C, hC, hstring⟩ : ∃ C, p.Captured (.ofExpr f) .exact C ∧
      C.strings.get? "v" = some "\\left\\| \x7b\\right \x7b2\x7d\x7d" := ⟨_, .inl rfl, rfl⟩
  obtain ⟨run, hrun, hreads⟩ := hcaptured p .exact C hC "v" _ hstring
  exact ⟨hread, hnormal, hf, ⟨hmem, List.infix_rfl, hrows _ hmem inner List.infix_rfl⟩, C, _, run, hC,
    hstring, rfl, hrun, hreads⟩

end FormulaMatch
