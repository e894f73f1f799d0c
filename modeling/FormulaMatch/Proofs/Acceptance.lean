import FormulaMatch.Proofs.Braces
import FormulaMatch.Proofs.Scanning
import FormulaMatch.Reading

/-! Which texts can be read. Wherever a token ends, a brace or backslash that the count of braces takes
in is seen by the reader as well and no other is, so the count accepts the same texts and finds the
same faults. -/

namespace FormulaMatch

/-- Whether the next character belongs to the command being read whatever it is. -/
def Scan.skips : Scan → Bool
  | escape _ => true
  | between | word _ | name _ | sizing _ => false

namespace Scan

variable {offset : Nat} {c : Char} {seen : List Char}

/-- A step that leaves off `tokens` and then the brace that was read, if it was one. -/
def ShowsBraces (result : List Lexeme × Scan) (offset : Nat) (c : Char) : Prop :=
  (∃ tokens, result.1 = List.map Lexeme.token tokens ++ braceAt offset c) ∧
    result.2.skips = (c == '\\')

theorem showsBraces_of_plain {result : List Lexeme × Scan} (tokens : List (List Char)) (hc : Plain c)
    (hr : result.1 = List.map Lexeme.token tokens) (hs : result.2.skips = false) :
    ShowsBraces result offset c := by
  have hslash : (c == '\\') = false := beq_eq_false_iff_ne.mpr hc.2.2
  exact ⟨⟨tokens, by rw [braceAt_of_plain hc, List.append_nil, hr]⟩, hs.trans hslash.symm⟩

theorem start_showsBraces (offset : Nat) (c : Char) : ShowsBraces (start offset c) offset c := by
  cases starting c with
  | blank blank hs =>
    rw [hs]
    exact showsBraces_of_plain [] (plain_of_isBlank blank) rfl rfl
  | brace brace hs =>
    rw [hs]
    rcases brace with rfl | rfl <;> exact ⟨⟨[], rfl⟩, rfl⟩
  | slash slash hs =>
    subst slash
    rw [hs]
    exact ⟨⟨[], rfl⟩, rfl⟩
  | word alphanumeric hs =>
    rw [hs]
    exact showsBraces_of_plain [] (plain_of_isAlphanumeric alphanumeric) rfl rfl
  | symbol plain _ hs =>
    rw [hs]
    exact showsBraces_of_plain [[c]] plain rfl rfl

theorem finish_showsBraces : ShowsBraces (finish seen offset c) offset c := by
  obtain ⟨⟨tokens, ht⟩, hs⟩ := start_showsBraces offset c
  exact ⟨⟨seen.reverse :: tokens, by simp [finish, ht]⟩, hs⟩

theorem delimit_showsBraces : ShowsBraces (delimit seen offset c) offset c := by
  cases delimiting seen c with
  | blank blank hd =>
    rw [hd]
    exact showsBraces_of_plain [] (plain_of_isBlank blank) rfl rfl
  | slash slash hd =>
    subst slash
    rw [hd]
    exact ⟨⟨[], rfl⟩, rfl⟩
  | apart _ hd =>
    rw [hd]
    exact finish_showsBraces
  | symbol plain _ hd =>
    rw [hd]
    exact showsBraces_of_plain [(c :: seen).reverse] plain rfl rfl

theorem step_showsBraces {state : Scan} (hs : state.skips = false) (offset : Nat) (c : Char) :
    ShowsBraces (state.step offset c) offset c := by
  cases state with
  | between => exact start_showsBraces offset c
  | word seen =>
    simp only [step]
    split
    · exact showsBraces_of_plain [] (plain_of_isAlphanumeric ‹_›) rfl rfl
    · exact finish_showsBraces
  | escape seen => simp [skips] at hs
  | name seen =>
    simp only [step]
    split
    · exact showsBraces_of_plain [] (plain_of_isNameChar ‹_›) rfl rfl
    · split
      · exact delimit_showsBraces
      · exact finish_showsBraces
  | sizing seen => exact delimit_showsBraces

theorem step_of_skips {state : Scan} (hs : state.skips = true) (offset : Nat) (c : Char) :
    (∃ tokens, (state.step offset c).1 = List.map Lexeme.token tokens) ∧
      (state.step offset c).2.skips = false := by
  cases state with
  | escape seen =>
    simp only [step]
    split
    · exact ⟨⟨[], rfl⟩, rfl⟩
    · exact ⟨⟨[(c :: seen).reverse], rfl⟩, rfl⟩
  | _ => simp [skips] at hs

theorem stop_of_not_skips {state : Scan} (hs : state.skips = false) (offset : Nat) :
    ∃ tokens, state.stop offset = List.map Lexeme.token tokens := by
  cases state with
  | between => exact ⟨[], rfl⟩
  | escape seen => simp [skips] at hs
  | word seen | name seen | sizing seen => exact ⟨[seen.reverse], rfl⟩

end Scan

theorem exists_assemble_tokens (items : List Expr) (outer : OpenGroups) (tokens : List (List Char))
    (rest : List Lexeme) :
    ∃ items', assemble items outer (tokens.map .token ++ rest) = assemble items' outer rest := by
  induction tokens generalizing items with
  | nil => exact ⟨items, rfl⟩
  | cons text tokens ih => exact ih _

/-- What a text turns out to be in the end, by the result of reading it. -/
def Verdict (cs : List Char) : Except ReadError Expr → Prop
  | .ok _ => Balanced cs
  | .error fault => BraceFault cs fault

variable {before : List Char} {items : List Expr} {outer : OpenGroups}

theorem verdict_assemble_nil (hs : skipsNext before = false) (hg : Grounded before)
    (ho : Opens before (outer.map Prod.fst)) : Verdict before (assemble items outer []) := by
  cases outer with
  | nil => exact ⟨hg, by simpa using ho.depth_eq, hs⟩
  | cons group outer =>
    obtain ⟨opener, hoffset, hunclosed, hlast⟩ := ho.unclosed
    simp only [assemble, ← hoffset]
    exact .unclosedGroup hg hs hunclosed hlast

theorem verdict_stop {state : Scan} (hs : state.skips = skipsNext before) (hg : Grounded before)
    (ho : Opens before (outer.map Prod.fst)) :
    Verdict before (assemble items outer (state.stop (byteLength before))) := by
  cases hn : skipsNext before with
  | false =>
    obtain ⟨tokens, ht⟩ := state.stop_of_not_skips (hs.trans hn) (byteLength before)
    obtain ⟨items', hi⟩ := exists_assemble_tokens items outer tokens []
    rw [ht, ← List.append_nil (tokens.map _), hi]
    exact verdict_assemble_nil hn hg ho
  | true =>
    obtain ⟨start, rfl, hcounted⟩ := exists_of_skipsNext hn
    have hgrounded : Grounded start := fun ds hds => hg ds (hds.trans (List.prefix_append _ _))
    cases state with
    | escape seen =>
      have hoffset : byteLength (start ++ ['\\']) - 1 = byteLength start := by
        rw [byteLength_append]
        exact Nat.add_sub_cancel _ 1
      simp only [Scan.stop, assemble, hoffset]
      exact .trailingBackslash rfl hcounted hgrounded
    | _ => simp [hn, Scan.skips] at hs

/-- The count keeps up with the reader: it is as deep as groups are open, and skips what the reader takes
into a command whatever it is. -/
theorem verdict_run {state : Scan} (cs : List Char) (hs : state.skips = skipsNext before)
    (hg : Grounded before) (ho : Opens before (outer.map Prod.fst)) :
    Verdict (before ++ cs) (assemble items outer (state.run (byteLength before) cs)) := by
  induction cs generalizing before state items outer with
  | nil =>
    rw [List.append_nil]
    exact verdict_stop hs hg ho
  | cons c cs ih =>
    have hsplit : before ++ c :: cs = (before ++ [c]) ++ cs := by simp
    have hbytes : byteLength before + c.utf8Size = byteLength (before ++ [c]) := by simp [byteLength]
    have hdepth := braceDepth_concat before c
    have hskip := skipsNext_concat before c
    have hzero : 0 ≤ braceDepth before := hg before (List.prefix_refl _)
    rw [Scan.run_cons, hbytes]
    cases hn : skipsNext before with
    | true =>
      obtain ⟨⟨tokens, ht⟩, hafter⟩ :=
        Scan.step_of_skips (hs.trans hn) (byteLength before) c
      obtain ⟨items', hi⟩ := exists_assemble_tokens items outer tokens
        ((state.step (byteLength before) c).2.run (byteLength (before ++ [c])) cs)
      simp only [hn, if_true, Int.add_zero, Bool.not_true, Bool.false_and] at hdepth hskip
      rw [ht, hi, hsplit]
      exact ih (hafter.trans hskip.symm) (grounded_concat hg (hdepth ▸ hzero)) (ho.concat hdepth)
    | false =>
      obtain ⟨⟨tokens, ht⟩, hafter⟩ :=
        Scan.step_showsBraces (hs.trans hn) (byteLength before) c
      have hnext : (state.step (byteLength before) c).2.skips = skipsNext (before ++ [c]) := by
        simp [hafter, hskip, hn]
      obtain ⟨items', hi⟩ := exists_assemble_tokens items outer tokens
        (braceAt (byteLength before) c ++
          (state.step (byteLength before) c).2.run (byteLength (before ++ [c])) cs)
      rw [ht, List.append_assoc, hi]
      simp only [hn, Bool.false_eq_true, if_false] at hdepth
      by_cases hopen : c = '{'
      · subst hopen
        rw [hsplit]
        exact ih hnext (grounded_concat hg (by simp only [if_true] at hdepth; omega)) (ho.opening hn)
      · by_cases hclose : c = '}'
        · subst hclose
          have hlevel := ho.depth_eq
          cases outer with
          | nil => exact .strayBrace rfl hn hg (by simpa using hlevel)
          | cons group outer =>
            have hpos : 0 ≤ braceDepth (before ++ ['}']) := by
              simp only [List.map_cons, List.length_cons] at hlevel
              simp at hdepth
              omega
            rw [hsplit]
            exact ih hnext (grounded_concat hg hpos) (ho.closing hn)
        · simp only [hopen, hclose, if_false, Int.add_zero] at hdepth
          have hnone : braceAt (byteLength before) c = [] := by simp [braceAt, hopen, hclose]
          rw [hnone, hsplit]
          exact ih hnext (grounded_concat hg (hdepth ▸ hzero)) (ho.concat hdepth)

theorem verdict_read (text : String) : Verdict text.toList (Expr.read text) := by
  have hopens : Opens [] (List.map Prod.fst ([] : OpenGroups)) := .level rfl
  exact verdict_run text.toList rfl grounded_nil hopens

theorem balanced_of_read {text : String} {e : Expr} (h : Expr.read text = .ok e) :
    Balanced text.toList := by
  have hv := verdict_read text
  rwa [h] at hv

theorem braceFault_of_read {text : String} {fault : ReadError} (h : Expr.read text = .error fault) :
    BraceFault text.toList fault := by
  have hv := verdict_read text
  rwa [h] at hv

/-- A text can be read exactly if its braces balance and it does not end in a backslash that counts,
where the character after such a backslash is skipped. Otherwise what is reported is the first brace
that closes nothing, or else the backslash at the end, or else the last brace that nothing closes, at
the byte where it stands. -/
theorem read_follows_braces (text : String) :
    ((∃ e, Expr.read text = .ok e) ↔ Balanced text.toList) ∧
    (∀ fault, Expr.read text = .error fault ↔ BraceFault text.toList fault) ∧
    ∀ offset, Expr.read text = .error (.trailingBackslash offset) → offset + 1 = text.utf8ByteSize := by
  refine ⟨⟨fun ⟨e, he⟩ => balanced_of_read he, fun hb => ?_⟩,
    fun fault => ⟨braceFault_of_read, fun hf => ?_⟩, fun offset h => ?_⟩
  · cases hr : Expr.read text with
    | ok e => exact ⟨e, rfl⟩
    | error found => exact absurd hb (braceFault_of_read hr).not_balanced
  · cases hr : Expr.read text with
    | ok e => exact absurd (balanced_of_read hr) hf.not_balanced
    | error found => rw [hf.unique (braceFault_of_read hr)]
  · rw [← byteLength_toList]
    cases braceFault_of_read h with
    | trailingBackslash split =>
      rw [split, byteLength_append]
      rfl

/-- Of `\left\{ {é}` the braces balance, of `é{a{b` the one at byte 4 is open, and `{é}} \` has one too
many at byte 4; `é\` ends in a backslash at byte 2. -/
theorem read_follows_braces_escaped :
    Balanced "\\left\\\x7b \x7bé\x7d".toList ∧
    BraceFault "é\x7ba\x7bb".toList (.unclosedGroup 4) ∧
    BraceFault "\x7bé\x7d\x7d \\".toList (.strayBrace 4) ∧
    Expr.read "é\\" = .error (.trailingBackslash 2) ∧ 2 + 1 = "é\\".utf8ByteSize := by
  have hread : Expr.read "é\\" = .error (.trailingBackslash 2) := rfl
  exact ⟨(read_follows_braces _).1.mp ⟨_, rfl⟩, ((read_follows_braces _).2.1 _).mp rfl,
    ((read_follows_braces _).2.1 _).mp rfl, hread, (read_follows_braces "é\\").2.2 2 hread⟩

end FormulaMatch
