import FormulaMatch.Proofs.Scanning
import Mathlib.Data.List.Chain

/-! Tokens on their own. The tokens of a text are read again as themselves, and one that ends in `\left`
or `\right` stands before a brace or a character of a word, which it does not take. So it is enough to
write blanks between tokens and to keep their order. -/

namespace FormulaMatch

/-- Reading what has been seen, last character first, completes no lexeme and leaves `state`. -/
def Scan.Gathers (seen : List Char) (state : Scan) : Prop :=
  ∀ offset rest,
    between.run offset (seen.reverse ++ rest) = state.run (offset + byteLength seen.reverse) rest

/-- A text that is read as one token, at once or as soon as something ends it. -/
inductive IsToken (text : List Char) : Prop
  | complete (run : ∀ offset rest, Scan.between.run offset (text ++ rest) =
      .token text :: Scan.between.run (offset + byteLength text) rest)
  | word (gathers : Scan.Gathers text.reverse (.word text.reverse))
  | name (gathers : Scan.Gathers text.reverse (.name text.reverse))

/-- A text does not take the first character of what comes next for its delimiter. -/
def Apart (text : List Char) (first : Option Char) : Prop :=
  endsInSizing text.reverse = true → ∃ c ∈ first, standsApart c = true

/-- What may stand after a token in a written formula. -/
inductive Separates (text : List Char) : List Char → Prop
  | ends : Separates text []
  | closing (more : List Char) : Separates text ('}' :: more)
  | blank {more : List Char} (apart : Apart text more.head?) : Separates text (' ' :: more)

variable {c : Char} {cs text seen : List Char} {offset : Nat}

theorem endsInSizing_cons (h : isNameChar c = false) (seen : List Char) :
    endsInSizing (c :: seen) = false := by
  have ht : ('t' == c) = false := by
    rw [beq_eq_false_iff_ne]
    rintro rfl
    revert h
    decide
  simp [endsInSizing, List.isPrefixOf_cons_cons, ht]

theorem endsInSizing_of_forall (h : ∀ c ∈ seen, isAlphanumeric c = true) : endsInSizing seen = false := by
  have hb : '\\' ∉ seen := by
    intro hmem
    have halpha := h _ hmem
    revert halpha
    decide
  rw [← Bool.not_eq_true, endsInSizing, Bool.or_eq_true, List.isPrefixOf_iff_prefix,
    List.isPrefixOf_iff_prefix]
  rintro (hp | hp) <;> exact hb (hp.subset (by simp))

namespace Scan

theorem step_name (hc : isNameChar c = false) (hs : endsInSizing seen = true) :
    (name seen).step offset c = delimit seen offset c := by
  simp [step, hc, hs]

theorem step_name_of_plain (hc : isNameChar c = false) (hs : endsInSizing seen = false) :
    (name seen).step offset c = finish seen offset c := by
  simp [step, hc, hs]

theorem run_of_finish {state : Scan} (h : state.step offset c = finish seen offset c) (cs : List Char) :
    state.run offset (c :: cs) = .token seen.reverse :: between.run offset (c :: cs) := by
  rw [run_cons, run_cons, h]
  rfl

theorem run_of_blank (h : isBlank c = true) (offset : Nat) (cs : List Char) :
    between.run offset (c :: cs) = between.run (offset + c.utf8Size) cs := by
  simp [run_cons, step, start, h]

theorem Gathers.cons {state next : Scan} (h : Gathers seen state)
    (hs : ∀ offset, state.step offset c = ([], next)) : Gathers (c :: seen) next := by
  intro offset rest
  rw [List.reverse_cons, List.append_assoc, h, List.singleton_append, run_cons, hs, byteLength_append,
    Nat.add_assoc]
  rfl

theorem Gathers.isToken {state : Scan} (h : Gathers seen state)
    (hs : ∀ offset, state.step offset c = ([.token (c :: seen).reverse], between)) :
    IsToken (c :: seen).reverse := by
  refine .complete fun offset rest => ?_
  rw [List.reverse_cons, List.append_assoc, h, List.singleton_append, run_cons, hs, byteLength_append,
    Nat.add_assoc, List.reverse_cons]
  rfl

theorem Gathers.isToken_word (h : Gathers seen (word seen)) : IsToken seen.reverse :=
  .word (by rwa [List.reverse_reverse])

theorem Gathers.isToken_name (h : Gathers seen (name seen)) : IsToken seen.reverse :=
  .name (by rwa [List.reverse_reverse])

theorem gathers_between : Gathers [] between := fun _ _ => rfl

theorem run_word {rest : List Char} (h : Separates seen.reverse rest) (offset : Nat) :
    (word seen).run offset rest = .token seen.reverse :: between.run offset rest := by
  cases h with
  | ends => rfl
  | closing more => exact run_of_finish rfl more
  | @blank more _ => exact run_of_finish rfl more

theorem run_name {rest : List Char} (h : Separates seen.reverse rest) (offset : Nat) :
    (name seen).run offset rest = .token seen.reverse :: between.run offset rest := by
  cases h with
  | ends => rfl
  | closing more =>
    refine run_of_finish ?_ more
    cases hs : endsInSizing seen with
    | false => exact step_name_of_plain rfl hs
    | true => exact (step_name rfl hs).trans (delimit_of_standsApart rfl seen offset)
  | @blank more apart =>
    cases hs : endsInSizing seen with
    | false => exact run_of_finish (step_name_of_plain rfl hs) more
    | true =>
      -- The blank is skipped, and what follows ends the command without being its delimiter.
      obtain ⟨d, hd, ha⟩ := apart (by rwa [List.reverse_reverse])
      obtain ⟨more, rfl⟩ := List.head?_eq_some_iff.mp hd
      have hstep : (sizing seen).step (offset + ' '.utf8Size) d = finish seen (offset + ' '.utf8Size) d :=
        delimit_of_standsApart ha seen _
      rw [run_cons, step_name rfl hs, run_of_blank rfl]
      exact run_of_finish hstep more

/-- States in which what has been seen is gathered by itself. A blank before a delimiter is not seen. -/
inductive Spelled : Scan → Prop
  | between : Spelled between
  | word {seen : List Char} (whole : ∀ c ∈ seen, isAlphanumeric c = true)
      (gathers : Gathers seen (word seen)) : Spelled (word seen)
  | escape {seen : List Char} (gathers : Gathers seen (escape seen)) : Spelled (escape seen)
  | name {seen : List Char} (gathers : Gathers seen (name seen)) : Spelled (name seen)
  | sizing {seen : List Char} (sizes : endsInSizing seen = true) (gathers : Gathers seen (name seen)) :
      Spelled (sizing seen)

/-- Reading `c` goes on with the token or completes it with `c`. -/
inductive Advances (state : Scan) (c : Char) : Prop
  | gathers {next : Scan} (spelled : next.Spelled) (step : ∀ offset, state.step offset c = ([], next))
  | completes {seen : List Char} (token : IsToken seen.reverse) (plain : endsInSizing seen = false)
      (step : ∀ offset, state.step offset c = ([.token seen.reverse], between))

theorem start_cases (c : Char) : between.Advances c ∨ c = '{' ∨ c = '}' := by
  cases starting c with
  | blank _ hs => exact .inl (.gathers .between hs)
  | brace brace _ => exact .inr brace
  | slash slash hs =>
    subst slash
    exact .inl (.gathers (.escape (gathers_between.cons hs)) hs)
  | word alphanumeric hs =>
    exact .inl (.gathers (.word (by simpa using alphanumeric) (gathers_between.cons hs)) hs)
  | symbol _ other hs =>
    exact .inl (.completes (gathers_between.isToken hs) (endsInSizing_cons (isNameChar_eq_false other) []) hs)

theorem delimit_cases {state : Scan} (h : Gathers seen (name seen)) (hs : endsInSizing seen = true)
    (hstep : ∀ offset, state.step offset c = delimit seen offset c) : state.Advances c ∨
      standsApart c = true ∧ ∀ offset, state.step offset c = finish seen offset c := by
  cases delimiting seen c with
  | blank _ hd => exact .inl (.gathers (.sizing hs h) fun offset => (hstep offset).trans (hd offset))
  | slash slash hd =>
    subst slash
    exact .inl (.gathers (.escape (h.cons fun offset => step_name rfl hs)) hstep)
  | apart apart hd => exact .inr ⟨apart, fun offset => (hstep offset).trans (hd offset)⟩
  | symbol _ other hd =>
    have hname : isNameChar c = false := isNameChar_eq_false other
    exact .inl (.completes (h.isToken fun offset => (step_name hname hs).trans (hd offset))
      (endsInSizing_cons hname seen) fun offset => (hstep offset).trans (hd offset))

/-- A character between tokens is read afresh, and any other goes on with the token or ends it. -/
theorem Spelled.step_cases {state : Scan} (h : state.Spelled) (c : Char) :
    state = .between ∨ state.Advances c ∨ ∃ seen, IsToken seen.reverse ∧
      (endsInSizing seen = true → standsApart c = true) ∧
      ∀ offset, state.step offset c = finish seen offset c := by
  cases h with
  | between => exact .inl rfl
  | @word seen whole gathers =>
    refine .inr ?_
    by_cases ha : isAlphanumeric c = true
    · have hstep : ∀ offset, (Scan.word seen).step offset c = ([], .word (c :: seen)) := fun offset => by
        simp [step, ha]
      exact .inl (.gathers (.word (List.forall_mem_cons.mpr ⟨ha, whole⟩) (gathers.cons hstep)) hstep)
    · refine .inr ⟨seen, gathers.isToken_word, fun hs => ?_, fun offset => ?_⟩
      · simp [endsInSizing_of_forall whole] at hs
      · simp [step, ha]
  | @escape seen gathers =>
    refine .inr (.inl ?_)
    by_cases hn : isNameChar c = true
    · have hstep : ∀ offset, (Scan.escape seen).step offset c = ([], .name (c :: seen)) := fun offset => by
        simp [step, hn]
      exact .gathers (.name (gathers.cons hstep)) hstep
    · have hstep : ∀ offset, (Scan.escape seen).step offset c =
          ([.token (c :: seen).reverse], .between) := fun offset => by
        simp [step, hn]
      exact .completes (gathers.isToken hstep) (endsInSizing_cons (by simpa using hn) seen) hstep
  | @name seen gathers =>
    refine .inr ?_
    by_cases hn : isNameChar c = true
    · have hstep : ∀ offset, (Scan.name seen).step offset c = ([], .name (c :: seen)) := fun offset => by
        simp [step, hn]
      exact .inl (.gathers (.name (gathers.cons hstep)) hstep)
    rw [Bool.not_eq_true] at hn
    by_cases hs : endsInSizing seen = true
    · refine (delimit_cases gathers hs fun offset => step_name hn hs).imp_right ?_
      rintro ⟨ha, hstep⟩
      exact ⟨seen, gathers.isToken_name, fun _ => ha, hstep⟩
    · rw [Bool.not_eq_true] at hs
      exact .inr ⟨seen, gathers.isToken_name, by simp [hs], fun offset => step_name_of_plain hn hs⟩
  | @sizing seen sizes gathers =>
    refine .inr ((delimit_cases gathers sizes fun offset => rfl).imp_right ?_)
    rintro ⟨ha, hstep⟩
    exact ⟨seen, gathers.isToken_name, fun _ => ha, hstep⟩

theorem exists_run_word (first : Char) (seen cs : List Char) (offset : Nat) :
    ∃ text more, (word (seen ++ [first])).run offset cs = .token text :: more ∧
      text.head? = some first := by
  induction cs generalizing seen offset with
  | nil => exact ⟨(seen ++ [first]).reverse, [], rfl, by simp⟩
  | cons c cs ih =>
    by_cases ha : isAlphanumeric c = true
    · have hstep : (word (seen ++ [first])).step offset c = ([], word (c :: seen ++ [first])) := by
        simp [step, ha]
      rw [run_cons, hstep]
      exact ih (c :: seen) _
    · have hstep : (word (seen ++ [first])).step offset c = finish (seen ++ [first]) offset c := by
        simp [step, ha]
      exact ⟨_, _, run_of_finish hstep cs, by simp⟩

end Scan

def Lexeme.first? : Lexeme → Option Char
  | token text => text.head?
  | opening _ => some '{'
  | closing _ => some '}'
  | dangling _ => some '\\'

/-- Lexemes whose tokens are tokens by themselves and stay so when blanks are put between them. -/
structure Orderly (lexemes : List Lexeme) : Prop where
  tokens : ∀ text, .token text ∈ lexemes → IsToken text
  apart : lexemes.IsChain fun l next => ∀ text, l = .token text → Apart text next.first?

theorem Scan.exists_first? (h : standsApart c = true) (offset : Nat) (cs : List Char) :
    ∃ l more, between.run offset (c :: cs) = l :: more ∧ l.first? = some c := by
  obtain ⟨hblank, hslash⟩ := not_special_of_standsApart h
  cases starting c with
  | blank blank _ => simp [hblank] at blank
  | brace brace _ => rcases brace with rfl | rfl <;> exact ⟨_, _, rfl, rfl⟩
  | slash slash _ => exact absurd slash hslash
  | word _ hs =>
    obtain ⟨text, more, hrun, hhead⟩ := exists_run_word c [] cs (offset + c.utf8Size)
    refine ⟨.token text, more, ?_, hhead⟩
    rw [run_cons, step, hs]
    exact hrun
  | symbol plain other _ => simp [standsApart, other, plain.1, plain.2.1] at h

theorem orderly_nil : Orderly [] := ⟨by simp, .nil⟩

theorem Orderly.of_cons {l : Lexeme} {lexemes : List Lexeme} (h : Orderly (l :: lexemes)) :
    Orderly lexemes :=
  ⟨fun text hmem => h.tokens text (List.mem_cons_of_mem _ hmem), (List.isChain_cons.mp h.apart).2⟩

theorem Orderly.cons_token {lexemes : List Lexeme} (h : Orderly lexemes) (ht : IsToken text)
    (ha : ∀ next ∈ lexemes.head?, Apart text next.first?) : Orderly (.token text :: lexemes) := by
  refine ⟨fun other hmem => ?_, List.isChain_cons.mpr ⟨fun next hn other he => ?_, h.apart⟩⟩
  · rcases List.mem_cons.mp hmem with he | hmem
    · cases he
      exact ht
    · exact h.tokens other hmem
  · cases he
    exact ha next hn

theorem Orderly.cons_of_ne_token {lexemes : List Lexeme} (h : Orderly lexemes) {l : Lexeme}
    (hl : ∀ text, l ≠ .token text) : Orderly (l :: lexemes) := by
  refine ⟨fun text hmem => ?_, List.isChain_cons.mpr ⟨fun _ _ text he => absurd he (hl text), h.apart⟩⟩
  rcases List.mem_cons.mp hmem with he | hmem
  · exact absurd he.symm (hl text)
  · exact h.tokens text hmem

namespace Scan

theorem orderly_stop {state : Scan} (h : state.Spelled) (offset : Nat) : Orderly (state.stop offset) := by
  cases h with
  | between => exact orderly_nil
  | escape _ => exact orderly_nil.cons_of_ne_token (by simp)
  | word _ gathers => exact orderly_nil.cons_token gathers.isToken_word (by simp)
  | name gathers => exact orderly_nil.cons_token gathers.isToken_name (by simp)
  | sizing _ gathers => exact orderly_nil.cons_token gathers.isToken_name (by simp)

theorem Advances.orderly {state : Scan} (h : state.Advances c)
    (ih : ∀ next offset, Spelled next → Orderly (next.run offset cs)) (offset : Nat) :
    Orderly (state.run offset (c :: cs)) := by
  cases h with
  | gathers spelled step =>
    rw [run_cons, step]
    exact ih _ _ spelled
  | completes token plain step =>
    rw [run_cons, step]
    exact (ih _ _ .between).cons_token token fun next _ hs => by simp [plain] at hs

theorem Spelled.orderly {state : Scan} (h : state.Spelled) (offset : Nat) (cs : List Char) :
    Orderly (state.run offset cs) := by
  induction cs generalizing state offset with
  | nil => exact orderly_stop h offset
  | cons c cs ih =>
    -- What ends a token is read as if nothing had been before it, so this case comes first.
    have hafresh : Orderly (Scan.between.run offset (c :: cs)) := by
      rcases start_cases c with hc | rfl | rfl
      · exact hc.orderly (fun next offset hn => ih hn offset) offset
      · exact (ih .between _).cons_of_ne_token (by simp)
      · exact (ih .between _).cons_of_ne_token (by simp)
    rcases h.step_cases c with rfl | hc | ⟨seen, ht, ha, hstep⟩
    · exact hafresh
    · exact hc.orderly (fun next offset hn => ih hn offset) offset
    · rw [run_of_finish (hstep offset)]
      refine hafresh.cons_token ht fun next hn hs => ?_
      rw [List.reverse_reverse] at hs
      obtain ⟨l, more, hrun, hfirst⟩ := exists_first? (ha hs) offset cs
      obtain rfl : l = next := by simpa [hrun] using hn
      exact ⟨c, hfirst, ha hs⟩

end Scan

theorem orderly_lexemes (cs : List Char) : Orderly (lexemes cs) := Scan.Spelled.between.orderly 0 cs

theorem IsToken.run_append {rest : List Char} (h : IsToken text) (hs : Separates text rest) (offset : Nat) :
    Scan.between.run offset (text ++ rest) =
      .token text :: Scan.between.run (offset + byteLength text) rest := by
  cases h with
  | complete run => exact run offset rest
  | word gathers =>
    have hrun := gathers offset rest
    rw [List.reverse_reverse] at hrun
    rw [hrun, Scan.run_word (by rwa [List.reverse_reverse]), List.reverse_reverse]
  | name gathers =>
    have hrun := gathers offset rest
    rw [List.reverse_reverse] at hrun
    rw [hrun, Scan.run_name (by rwa [List.reverse_reverse]), List.reverse_reverse]

end FormulaMatch
