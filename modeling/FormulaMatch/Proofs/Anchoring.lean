import FormulaMatch.Proofs.Repetitions
import FormulaMatch.Proofs.Senses

/-! The expressions of this project are a standard library. What a text with anchors, groups and bars is read
as follows from its parts: the tokens of a complete text stay as they are whatever stands around it, and
those of a group complete an item of the group around it. -/

namespace FormulaMatch

/-- A text that is read completely leaves nothing to what stands behind it. -/
theorem EscapeState.run_append {state : EscapeState} {cs : List Char} {symbols : List RegexSymbol}
    (h : state.run cs = .ok symbols) (ds : List Char) :
    state.run (cs ++ ds) = (EscapeState.none.run ds).map (symbols ++ ·) := by
  induction cs generalizing state symbols with
  | nil =>
    rw [run] at h
    split at h
    · rename_i hnone
      cases h
      rw [hnone, List.nil_append]
      cases EscapeState.none.run ds <;> rfl
    · cases h
  | cons c cs ih =>
    rw [run] at h
    rw [List.cons_append, run]
    split at h
    · cases h
    · rename_i symbol next hstep
      obtain ⟨more, hmore, rfl⟩ := map_eq_ok_iff.mp h
      simp only [ih hmore]
      cases EscapeState.none.run ds <;> simp [Except.map]

namespace RegexScan

/-- A closing bracket ends what may end anyway. -/
theorem step_closing {scan : RegexScan} {tokens : List RegexToken} (h : scan.stop = .ok tokens) :
    scan.step (.plain ')') = .ok (tokens ++ [.closeGroup], between) := by
  cases scan with
  | between | quantified least most =>
    cases h
    rfl
  | _ => cases h

theorem run_closing {scan : RegexScan} {symbols : List RegexSymbol} {tokens : List RegexToken}
    (h : scan.run symbols = .ok tokens) (rest : List RegexSymbol) :
    scan.run (symbols ++ .plain ')' :: rest) =
      (between.run rest).map (tokens ++ .closeGroup :: ·) := by
  induction symbols generalizing scan tokens with
  | nil =>
    rw [List.nil_append, run, step_closing h]
    simp
  | cons symbol symbols ih =>
    rw [run] at h
    rw [List.cons_append, run]
    split at h
    · cases h
    · rename_i first next hstep
      obtain ⟨more, hmore, rfl⟩ := map_eq_ok_iff.mp h
      simp only [ih hmore]
      cases between.run rest <;> simp [Except.map]

end RegexScan

namespace Regex

variable {group around : RegexGroup} {outer more : List RegexGroup} {tokens rest : List RegexToken}
  {r s : Regex} {cs ds : List Char} {items : List Regex} {before run after : List Char}

/-- Tokens that complete an expression complete an item of a group that is around them. -/
theorem ofTokens_closing (h : ofTokens group outer tokens = .ok r) :
    ofTokens group (outer ++ around :: more) (tokens ++ .closeGroup :: rest) =
      ofTokens (around.push (some r)) more rest := by
  induction tokens generalizing group outer with
  | nil =>
    rw [ofTokens] at h
    split at h
    · rename_i hnil
      cases h
      rw [List.isEmpty_iff.mp hnil]
      rfl
    · cases h
  | cons token tokens ih =>
    cases token with
    | one set | anyChar | textStart | textEnd | bar | setFlags change | openGroup change name => exact ih h
    | closeGroup =>
      cases outer with
      | nil => cases h
      | cons inner outer => exact ih h
    | «repeated» least most =>
      rw [List.cons_append]
      simp only [ofTokens] at h ⊢
      split at h
      · exact ih h
      · cases h

/-- The runs that the expression spans, by what stands around them. -/
def sense (r : Regex) : Sense := fun before run after => r.Spans (before ++ run ++ after) (run ++ after) after

theorem sense_empty : empty.sense = .empty := by
  funext before run after
  exact propext List.append_left_eq_self

theorem sense_textStart : textStart.sense = .textStart := by
  funext before run after
  apply propext
  constructor
  · rintro ⟨hrun, hafter⟩
    have hlength := congrArg List.length hafter
    simp only [List.length_append] at hlength
    exact ⟨List.eq_nil_of_length_eq_zero (by omega), List.eq_nil_of_length_eq_zero (by omega)⟩
  · rintro ⟨rfl, rfl⟩
    exact ⟨rfl, rfl⟩

theorem sense_textEnd : textEnd.sense = .textEnd := by
  funext before run after
  apply propext
  constructor
  · rintro ⟨hrun, hafter⟩
    exact ⟨(List.append_eq_nil_iff.mp hrun).1, hafter⟩
  · rintro ⟨rfl, rfl⟩
    exact ⟨rfl, rfl⟩

theorem sense_concat : (concat r s).sense = r.sense.concat s.sense := by
  funext before run after
  apply propext
  constructor
  · rintro ⟨b, hr, hs⟩
    obtain ⟨first, hfirst⟩ := hr.isSuffix
    obtain ⟨second, rfl⟩ := hs.isSuffix
    obtain rfl : run = first ++ second := by
      rw [← List.append_assoc] at hfirst
      exact (List.append_cancel_right hfirst).symm
    refine ⟨first, second, rfl, ?_, ?_⟩
    · simpa [sense] using hr
    · simpa [sense] using hs
  · rintro ⟨first, second, rfl, hr, hs⟩
    refine ⟨second ++ after, ?_, ?_⟩
    · simpa [sense] using hr
    · simpa [sense] using hs

theorem sense_row (h : group.items = (items.map some).reverse) :
    group.row.sense = (items.map sense).foldr .concat .empty := by
  rw [RegexGroup.row, h, List.reverse_reverse]
  clear h
  induction items with
  | nil => exact sense_empty
  | cons r items ih => exact sense_concat.trans (congrArg _ ih)

theorem sense_regex : group.regex.sense before run after ↔
    group.row.sense before run after ∨ ∃ r ∈ group.alternatives, r.sense before run after := by
  unfold RegexGroup.regex
  generalize group.row = r
  induction group.alternatives generalizing r with
  | nil => simp
  | cons s alternatives ih =>
    rw [List.foldl_cons, ih]
    simp only [List.mem_cons, exists_eq_or_imp, ← or_assoc]
    exact or_congr_left Or.comm

/-- A complete text of these tokens, whatever stands behind it. -/
def Spells (cs : List Char) (tokens : List RegexToken) : Prop :=
  ∃ symbols, EscapeState.none.run cs = .ok symbols ∧
    ∀ rest, RegexScan.between.run (symbols ++ rest) = (RegexScan.between.run rest).map (tokens ++ ·)

theorem Spells.append {more : List RegexToken} (h : Spells cs tokens) (h' : Spells ds more) :
    Spells (cs ++ ds) (tokens ++ more) := by
  obtain ⟨symbols, hsymbols, hrun⟩ := h
  obtain ⟨symbols', hsymbols', hrun'⟩ := h'
  refine ⟨symbols ++ symbols', ?_, fun rest => ?_⟩
  · rw [EscapeState.run_append hsymbols, hsymbols']
    rfl
  · rw [List.append_assoc, hrun, hrun']
    cases RegexScan.between.run rest <;> simp [Except.map]

theorem spells_nil : Spells [] [] :=
  ⟨[], rfl, fun rest => by cases h : RegexScan.between.run rest <;> simp [h, Except.map]⟩

theorem run_opening (rest : List RegexSymbol) :
    RegexScan.between.run (.plain '(' :: .plain '?' :: .plain ':' :: rest) =
      (RegexScan.between.run rest).map (.openGroup {} none :: ·) := by
  change (((RegexScan.between.run rest).map _).map _).map _ = _
  cases RegexScan.between.run rest <;> rfl

theorem spells_group (h : read cs = .ok r) : ∃ tokens, ofTokens {} [] tokens = .ok r ∧
    Spells ("(?:".toList ++ cs ++ [')']) (.openGroup {} none :: tokens ++ [.closeGroup]) := by
  obtain ⟨symbols, tokens, hsymbols, htokens, _, hr⟩ := read_eq_ok_iff.mp h
  have hopening : EscapeState.none.run "(?:".toList = .ok [.plain '(', .plain '?', .plain ':'] := rfl
  have hclosing : EscapeState.none.run [')'] = .ok [.plain ')'] := rfl
  refine ⟨tokens, hr, [.plain '(', .plain '?', .plain ':'] ++ (symbols ++ [.plain ')']), ?_, fun rest => ?_⟩
  · rw [List.append_assoc, EscapeState.run_append hopening, EscapeState.run_append hsymbols, hclosing]
    rfl
  · have hrun : RegexScan.between.run (symbols ++ .plain ')' :: rest) =
        (RegexScan.between.run rest).map (tokens ++ .closeGroup :: ·) := RegexScan.run_closing htokens rest
    have hopened := run_opening (symbols ++ .plain ')' :: rest)
    rw [hrun] at hopened
    rw [List.append_assoc, List.append_assoc]
    refine hopened.trans ?_
    cases RegexScan.between.run rest <;> simp [Except.map]

/-- Tokens that add items to a group without flags. -/
def Completes (tokens : List RegexToken) (items : List Regex) : Prop :=
  ∀ (group : RegexGroup) (rest : List RegexToken), group.flags = {} →
    ofTokens group [] (tokens ++ rest) =
      ofTokens { group with items := (items.map some).reverse ++ group.items } [] rest

theorem Completes.append {more : List RegexToken} {items' : List Regex} (h : Completes tokens items)
    (h' : Completes more items') : Completes (tokens ++ more) (items ++ items') := by
  intro group rest hflags
  rw [List.append_assoc, h group _ hflags]
  have hmore := h' { group with items := (items.map some).reverse ++ group.items } rest hflags
  rw [hmore]
  simp

theorem completes_group (h : ofTokens {} [] tokens = .ok r) :
    Completes (.openGroup {} none :: tokens ++ [.closeGroup]) [r] := by
  intro group rest hflags
  have hclosing : ofTokens {} ([] ++ group :: []) (tokens ++ .closeGroup :: rest) =
    ofTokens (group.push (some r)) [] rest := ofTokens_closing h
  have hinner : ({ flags := group.flags.apply {} } : RegexGroup) = {} := by
    rw [hflags]
    rfl
  rw [List.append_assoc, List.cons_append, ofTokens, hinner]
  exact hclosing

theorem library_read_eq_ok_iff {source : String} :
    library.read source = .ok r ↔ read source.toList = .ok r := by
  change (read source.toList).mapError RegexError.message = .ok r ↔ _
  cases read source.toList <;> simp [Except.mapError]

/-- A piece is read as one item of its group. -/
theorem exists_item {piece : RegexPiece} (h : ∀ source ∈ piece.source?, ∃ r, library.read source = .ok r) :
    ∃ tokens r, Spells piece.text.toList tokens ∧ Completes tokens [r] ∧
      piece.sense library sense = r.sense := by
  cases piece with
  | textStart =>
    exact ⟨[.textStart], .textStart, ⟨[.plain '^'], rfl, fun _ => rfl⟩, fun _ _ _ => rfl,
      sense_textStart.symm⟩
  | textEnd =>
    exact ⟨[.textEnd], .textEnd, ⟨[.plain '$'], rfl, fun _ => rfl⟩, fun _ _ _ => rfl, sense_textEnd.symm⟩
  | group source =>
    obtain ⟨r, hr⟩ := h source rfl
    obtain ⟨tokens, htokens, hspells⟩ := spells_group (library_read_eq_ok_iff.mp hr)
    refine ⟨_, r, ?_, completes_group htokens, RegexPiece.group_sense hr⟩
    rw [RegexPiece.text, String.toList_append, String.toList_append]
    exact hspells

theorem exists_items {row : List RegexPiece}
    (h : ∀ source ∈ row.filterMap RegexPiece.source?, ∃ r, library.read source = .ok r) :
    ∃ tokens items, Spells (String.join (row.map RegexPiece.text)).toList tokens ∧ Completes tokens items ∧
      RegexPiece.rowSense library sense row = (items.map sense).foldr .concat .empty := by
  induction row with
  | nil => exact ⟨[], [], spells_nil, fun _ _ _ => rfl, rfl⟩
  | cons piece row ih =>
    simp only [List.mem_filterMap, List.mem_cons] at h ih
    obtain ⟨tokens, r, hspells, hcompletes, hsense⟩ :=
      exists_item fun source hsource => h source ⟨piece, .inl rfl, hsource⟩
    obtain ⟨more, items, hspells', hcompletes', hsense'⟩ :=
      ih fun source ⟨p, hp, hsource⟩ => h source ⟨p, .inr hp, hsource⟩
    refine ⟨tokens ++ more, r :: items, ?_, hcompletes.append hcompletes', ?_⟩
    · rw [String.toList_join] at hspells' ⊢
      exact hspells.append hspells'
    · exact congrArg₂ Sense.concat hsense hsense'

/-- Rows between bars are read as the last alternatives of their group. -/
theorem exists_alternatives {rows : List (List RegexPiece)} (hne : rows ≠ [])
    (h : ∀ source ∈ RegexPiece.sources rows, ∃ r, library.read source = .ok r) :
    ∃ tokens, Spells (RegexPiece.rowsText rows).toList tokens ∧
      ∀ group : RegexGroup, group.flags = {} → group.items = [] → ∃ r, ofTokens group [] tokens = .ok r ∧
        ∀ before run after, r.sense before run after ↔
          (∃ s ∈ group.alternatives, s.sense before run after) ∨
            ∃ row ∈ rows, RegexPiece.rowSense library sense row before run after := by
  induction rows with
  | nil => exact absurd rfl hne
  | cons row rows ih =>
    simp only [RegexPiece.sources, List.flatten_cons, List.filterMap_append, List.mem_append] at h ih
    obtain ⟨tokens, items, hspells, hcompletes, hsense⟩ := exists_items fun source hs => h source (.inl hs)
    have hrow : ∀ group : RegexGroup, group.items = (items.map some).reverse → group.row.sense =
        RegexPiece.rowSense library sense row := fun group hitems => (sense_row hitems).trans hsense.symm
    cases rows with
    | nil =>
      refine ⟨tokens, ?_, fun group hflags hitems => ?_⟩
      · simpa [RegexPiece.rowsText] using hspells
      · have hlast := hcompletes group [] hflags
        rw [List.append_nil, hitems, List.append_nil] at hlast
        refine ⟨_, hlast, fun before run after => ?_⟩
        rw [sense_regex, hrow _ rfl]
        simp [Or.comm]
    | cons next rows =>
      obtain ⟨more, hmore, hgroup⟩ := ih (List.cons_ne_nil _ _) fun source hs => h source (.inr hs)
      have hbar : Spells ['|'] [.bar] := ⟨[.plain '|'], rfl, fun _ => rfl⟩
      refine ⟨tokens ++ [.bar] ++ more, ?_, fun group hflags hitems => ?_⟩
      · have htext := (hspells.append hbar).append hmore
        simpa [RegexPiece.rowsText, List.intercalate_cons_cons] using htext
      · have hfirst := hcompletes group (.bar :: more) hflags
        obtain ⟨r, hr, hsplit⟩ := hgroup { group with
          alternatives := RegexGroup.row { group with items := (items.map some).reverse } :: group.alternatives
          items := [] } hflags rfl
        rw [hitems, List.append_nil] at hfirst
        refine ⟨r, ?_, fun before run after => ?_⟩
        · rw [List.append_assoc, List.singleton_append, hfirst]
          exact hr
        · have hrows := List.exists_mem_cons_iff (RegexPiece.rowSense library sense · before run after) row
            (next :: rows)
          rw [hsplit, List.exists_mem_cons_iff, hrow _ rfl, or_assoc, or_left_comm, hrows]

/-- Behind a complete text a bracket closes the outermost group, which has no group around it. -/
theorem ofTokens_unopened {s : Regex} (h : ofTokens group outer tokens = .ok r) :
    ofTokens group outer (tokens ++ .closeGroup :: rest) ≠ .ok s := by
  induction tokens generalizing group outer with
  | nil =>
    rw [ofTokens] at h
    split at h
    · rename_i hnil
      rw [List.isEmpty_iff.mp hnil]
      intro hok
      cases hok
    · cases h
  | cons token tokens ih =>
    cases token with
    | one set | anyChar | textStart | textEnd | bar | setFlags change | openGroup change name => exact ih h
    | closeGroup =>
      cases outer with
      | nil => cases h
      | cons inner outer => exact ih h
    | «repeated» least most =>
      rw [List.cons_append]
      simp only [ofTokens] at h ⊢
      split at h
      · exact ih h
      · cases h

theorem read_unopened (h : read cs = .ok r) : read (cs ++ ')' :: ds) ≠ .ok s := by
  intro hs
  obtain ⟨symbols, tokens, hsymbols, htokens, _, hr⟩ := read_eq_ok_iff.mp h
  obtain ⟨symbols', tokens', hsymbols', htokens', _, hr'⟩ := read_eq_ok_iff.mp hs
  rw [regexSymbols, EscapeState.run_append hsymbols] at hsymbols'
  obtain ⟨closed, hclosed, rfl⟩ := map_eq_ok_iff.mp hsymbols'
  obtain ⟨rest, hrest, rfl⟩ := map_eq_ok_iff.mp hclosed
  have hrun : RegexScan.between.run (symbols ++ .plain ')' :: rest) =
      (RegexScan.between.run rest).map (tokens ++ .closeGroup :: ·) := RegexScan.run_closing htokens rest
  obtain ⟨more, _, rfl⟩ := map_eq_ok_iff.mp (hrun.symm.trans htokens')
  exact ofTokens_unopened hr hr'

theorem library_standard : library.Standard sense where
  search source e he text := by
    have hread := library_read_eq_ok_iff.mp he
    refine (isMatch_iff (bounded_of_read hread)).trans ?_
    constructor
    · rintro ⟨a, b, ⟨before, hbefore⟩, hspans⟩
      obtain ⟨run, rfl⟩ := hspans.isSuffix
      rw [← List.append_assoc] at hbefore
      rw [← hbefore] at hspans
      exact ⟨before, run, b, hbefore.symm, hspans⟩
    · rintro ⟨before, run, after, htext, hrun⟩
      refine ⟨run ++ after, after, ⟨before, by rw [htext, List.append_assoc]⟩, ?_⟩
      rw [htext]
      exact hrun
  alternatives rows e hne hsources _ he before run after := by
    obtain ⟨symbols, tokens, hsymbols, htokens, _, hr⟩ := read_eq_ok_iff.mp (library_read_eq_ok_iff.mp he)
    obtain ⟨tokens', ⟨symbols', hsymbols', hrun⟩, hall⟩ := exists_alternatives hne hsources
    cases hsymbols.symm.trans hsymbols'
    have htokens' : RegexScan.between.run (symbols ++ []) = .ok (tokens' ++ []) := hrun []
    rw [List.append_nil, List.append_nil] at htokens'
    cases htokens.symm.trans htokens'
    obtain ⟨r, hr', hsense⟩ := hall {} rfl rfl
    cases hr.symm.trans hr'
    simpa using hsense before run after
  unopened source e he _ rest f hf := by
    have hread := library_read_eq_ok_iff.mp hf
    rw [String.toList_append, String.toList_append, List.append_assoc] at hread
    exact read_unopened (library_read_eq_ok_iff.mp he) hread

end Regex

end FormulaMatch
