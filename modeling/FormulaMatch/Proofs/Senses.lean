import FormulaMatch.Wildcards

/-! What regular expressions mean. An expression stands for the runs that it matches between what stands
before and behind them. A library is standard if a search finds such a run wherever it lies, if anchors,
groups and bars mean what they are written for, and if a bracket that closes no group makes a text
unreadable. In a verbose group a number sign hides what follows in its line, the closing bracket with it, so
the last two are asked only where nothing is hidden. -/

namespace FormulaMatch

/-- The runs matched, by what stands before them, the run itself and what stands behind it. -/
abbrev Sense := List Char → List Char → List Char → Prop

namespace Sense

def empty : Sense := fun _ run _ => run = []

def textStart : Sense := fun before run _ => before = [] ∧ run = []

def textEnd : Sense := fun _ run after => run = [] ∧ after = []

def concat (s t : Sense) : Sense := fun before run after =>
  ∃ first second, run = first ++ second ∧ s before first (second ++ after) ∧ t (before ++ first) second after

variable {s : Sense} {before run after : List Char}

theorem concat_empty (s : Sense) : s.concat empty = s := by
  funext before run after
  apply propext
  constructor
  · rintro ⟨first, _, rfl, hs, rfl⟩
    rwa [List.append_nil]
  · intro hs
    exact ⟨run, [], (List.append_nil run).symm, hs, rfl⟩

theorem textStart_concat : textStart.concat s before run after ↔ before = [] ∧ s [] run after := by
  constructor
  · rintro ⟨_, second, rfl, ⟨rfl, rfl⟩, hs⟩
    exact ⟨rfl, hs⟩
  · rintro ⟨rfl, hs⟩
    exact ⟨[], run, rfl, ⟨rfl, rfl⟩, hs⟩

theorem concat_textEnd : s.concat textEnd before run after ↔ after = [] ∧ s before run [] := by
  constructor
  · rintro ⟨first, _, rfl, hs, rfl, rfl⟩
    rw [List.append_nil]
    exact ⟨rfl, hs⟩
  · rintro ⟨rfl, hs⟩
    exact ⟨run, [], (List.append_nil run).symm, hs, rfl, rfl⟩

end Sense

/-- An anchor, or a group around the text of an expression. -/
inductive RegexPiece where
  | textStart
  | textEnd
  | group (source : String)

namespace RegexPiece

def text : RegexPiece → String
  | textStart => "^"
  | textEnd => "$"
  | group source => "(?:" ++ source ++ ")"

def source? : RegexPiece → Option String
  | group source => some source
  | _ => none

/-- The pieces of a row stand side by side, and bars divide the rows. -/
def rowsText (rows : List (List RegexPiece)) : String :=
  "|".intercalate (rows.map fun row => String.join (row.map text))

/-- The texts in groups. -/
def sources (rows : List (List RegexPiece)) : List String := rows.flatten.filterMap source?

def sense (lib : RegexLibrary) (sense : lib.Expression → Sense) : RegexPiece → Sense
  | textStart => .textStart
  | textEnd => .textEnd
  | group source => fun before run after => ∃ e, lib.read source = .ok e ∧ sense e before run after

/-- Every piece has to match, one behind the other. -/
def rowSense (lib : RegexLibrary) (sense : lib.Expression → Sense) (row : List RegexPiece) : Sense :=
  (row.map (·.sense lib sense)).foldr .concat .empty

theorem group_sense {lib : RegexLibrary} {sense : lib.Expression → Sense} {source : String}
    {e : lib.Expression} (h : lib.read source = .ok e) : (group source).sense lib sense = sense e := by
  funext before run after
  apply propext
  constructor
  · rintro ⟨f, hf, hrun⟩
    cases h.symm.trans hf
    exact hrun
  · intro hrun
    exact ⟨e, h, hrun⟩

end RegexPiece

namespace RegexLibrary

variable (lib : RegexLibrary)

structure Standard (sense : lib.Expression → Sense) : Prop where
  search : ∀ source e, lib.read source = .ok e → ∀ text, lib.isMatch e text = true ↔
    ∃ before run after, text.toList = before ++ run ++ after ∧ sense e before run after
  /-- One of the alternatives has to match. No group but the last may hold a comment. -/
  alternatives : ∀ rows e, rows ≠ [] →
    (∀ source ∈ RegexPiece.sources rows, ∃ e, lib.read source = .ok e) →
    (∀ source ∈ (RegexPiece.sources rows).dropLast, '#' ∉ source.toList) →
    lib.read (RegexPiece.rowsText rows) = .ok e → ∀ before run after,
    sense e before run after ↔ ∃ row ∈ rows, RegexPiece.rowSense lib sense row before run after
  /-- Behind an expression a bracket has no group to close. -/
  unopened : ∀ source e, lib.read source = .ok e → '#' ∉ source.toList →
    ∀ rest e, lib.read (source ++ ")" ++ rest) ≠ .ok e

end RegexLibrary

namespace Recogniser

open RegexPiece (rowsText rowSense sources)

variable {lib : RegexLibrary} {sense : lib.Expression → Sense} {source : String} {w : Recogniser lib}

theorem ofSource_eq_ok_iff (hblank : source.toList.all isBlank = false) : ofSource lib source = .ok w ↔
    ∃ regex, lib.read (anchored source) = .ok regex ∧ w = ⟨source, some regex⟩ := by
  rw [ofSource, hblank]
  cases lib.read (anchored source) with
  | error message => simp
  | ok regex => simp [eq_comm]

theorem anchored_eq_rowsText (source : String) :
    anchored source = rowsText [[.textStart, .group source, .textEnd]] := by
  apply String.toList_inj.mp
  simp [anchored, rowsText, RegexPiece.text]

/-- The first bracket of the text closes the group that it is put into, the last one opens another. -/
theorem anchored_eq_rowsText_split (x y : String) :
    anchored (x ++ ")|(?:" ++ y) = rowsText [[.textStart, .group x], [.group y, .textEnd]] := by
  apply String.toList_inj.mp
  simp [anchored, rowsText, RegexPiece.text]

/-- What is recognised when the text of an accepted source stands for alternatives of pieces. -/
theorem recognises_iff_rowSense (h : lib.Standard sense) (hblank : source.toList.all isBlank = false)
    (hw : ofSource lib source = .ok w) {rows : List (List RegexPiece)} (hne : rows ≠ [])
    (hrows : anchored source = rowsText rows)
    (hread : ∀ x ∈ sources rows, ∃ e, lib.read x = .ok e)
    (hplain : ∀ x ∈ (sources rows).dropLast, '#' ∉ x.toList) (text : String) :
    w.recognises text = true ↔ ∃ before run after, text.toList = before ++ run ++ after ∧
      ∃ row ∈ rows, rowSense lib sense row before run after := by
  obtain ⟨regex, hregex, rfl⟩ := (ofSource_eq_ok_iff hblank).mp hw
  have hsense := h.alternatives rows regex hne hread hplain (hrows ▸ hregex)
  refine (h.search _ regex hregex text).trans ?_
  simp only [hsense]

/-- An expression is put into its group as it is, so it has to match the whole text. -/
theorem recognises_iff_whole (h : lib.Standard sense) (hblank : source.toList.all isBlank = false)
    (hw : ofSource lib source = .ok w) {e : lib.Expression} (he : lib.read source = .ok e) (text : String) :
    w.recognises text = true ↔ sense e [] text.toList [] := by
  have hread : ∀ x ∈ sources [[.textStart, .group source, .textEnd]], ∃ e, lib.read x = .ok e :=
    List.forall_mem_singleton.mpr ⟨e, he⟩
  have hplain : ∀ x ∈ (sources [[.textStart, .group source, .textEnd]]).dropLast, '#' ∉ x.toList :=
    List.forall_mem_nil _
  have hrow : ∀ before run after, rowSense lib sense [.textStart, .group source, .textEnd] before run after ↔
      before = [] ∧ after = [] ∧ sense e [] run [] := by
    intro before run after
    change Sense.concat .textStart
      (.concat (RegexPiece.sense lib sense (.group source)) (.concat .textEnd .empty))
      before run after ↔ _
    rw [Sense.concat_empty, Sense.textStart_concat, Sense.concat_textEnd, RegexPiece.group_sense he]
  rw [recognises_iff_rowSense h hblank hw (List.cons_ne_nil _ _) (anchored_eq_rowsText source) hread hplain]
  simp only [List.mem_singleton, exists_eq_left, hrow]
  constructor
  · rintro ⟨_, run, _, htext, rfl, rfl, hrun⟩
    rw [htext, List.nil_append, List.append_nil]
    exact hrun
  · intro hrun
    exact ⟨[], text.toList, [], by simp, rfl, rfl, hrun⟩

/-- Two expressions with such brackets between them are alternatives with one anchor each. -/
theorem recognises_iff_either_end (h : lib.Standard sense) {x y : String} {e f : lib.Expression}
    (hblank : (x ++ ")|(?:" ++ y).toList.all isBlank = false) (hw : ofSource lib (x ++ ")|(?:" ++ y) = .ok w)
    (hx : lib.read x = .ok e) (hplain : '#' ∉ x.toList) (hy : lib.read y = .ok f) (text : String) :
    w.recognises text = true ↔ (∃ run after, text.toList = run ++ after ∧ sense e [] run after) ∨
      ∃ before run, text.toList = before ++ run ∧ sense f before run [] := by
  have hread : ∀ z ∈ sources [[.textStart, .group x], [.group y, .textEnd]], ∃ e, lib.read z = .ok e :=
    List.forall_mem_cons.mpr ⟨⟨e, hx⟩, List.forall_mem_singleton.mpr ⟨f, hy⟩⟩
  have hcomments : ∀ z ∈ (sources [[.textStart, .group x], [.group y, .textEnd]]).dropLast,
      '#' ∉ z.toList := List.forall_mem_singleton.mpr hplain
  have hfirst : ∀ before run after, rowSense lib sense [.textStart, .group x] before run after ↔
      before = [] ∧ sense e [] run after := by
    intro before run after
    change Sense.concat .textStart (.concat (RegexPiece.sense lib sense (.group x)) .empty)
      before run after ↔ _
    rw [Sense.concat_empty, Sense.textStart_concat, RegexPiece.group_sense hx]
  have hsecond : ∀ before run after, rowSense lib sense [.group y, .textEnd] before run after ↔
      after = [] ∧ sense f before run [] := by
    intro before run after
    change Sense.concat (RegexPiece.sense lib sense (.group y)) (.concat .textEnd .empty)
      before run after ↔ _
    rw [Sense.concat_empty, Sense.concat_textEnd, RegexPiece.group_sense hy]
  rw [recognises_iff_rowSense h hblank hw (List.cons_ne_nil _ _) (anchored_eq_rowsText_split x y) hread
    hcomments]
  simp only [List.mem_cons, List.not_mem_nil, or_false, exists_eq_or_imp, exists_eq_left, hfirst, hsecond]
  constructor
  · rintro ⟨before, run, after, htext, ⟨rfl, hrun⟩ | ⟨rfl, hrun⟩⟩
    · exact .inl ⟨run, after, htext, hrun⟩
    · exact .inr ⟨before, run, by rw [htext, List.append_nil], hrun⟩
  · rintro (⟨run, after, htext, hrun⟩ | ⟨before, run, htext, hrun⟩)
    · exact ⟨[], run, after, htext, .inl ⟨rfl, hrun⟩⟩
    · exact ⟨before, run, [], by rw [htext, List.append_nil], .inr ⟨rfl, hrun⟩⟩

end Recogniser

end FormulaMatch
