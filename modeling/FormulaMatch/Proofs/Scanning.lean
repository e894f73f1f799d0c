import FormulaMatch.Lexeme

/-! What one character comes to, between tokens and after a command that takes a delimiter. -/

namespace FormulaMatch

/-- Characters that no command takes for its delimiter. -/
def standsApart (c : Char) : Bool := isAlphanumeric c || c == '{' || c == '}'

def Plain (c : Char) : Prop := c ≠ '{' ∧ c ≠ '}' ∧ c ≠ '\\'

def braceAt (offset : Nat) (c : Char) : List Lexeme :=
  if c = '{' then [.opening offset] else if c = '}' then [.closing offset] else []

variable {c : Char} {seen : List Char}

theorem braceAt_of_plain (h : Plain c) (offset : Nat) : braceAt offset c = [] := by
  simp [braceAt, h.1, h.2.1]

theorem plain_of_class {p : Char → Bool} (hp : p '{' = false ∧ p '}' = false ∧ p '\\' = false)
    (h : p c = true) : Plain c := by
  obtain ⟨ho, hx, hb⟩ := hp
  refine ⟨?_, ?_, ?_⟩ <;> rintro rfl <;> simp_all

theorem plain_of_isBlank (h : isBlank c = true) : Plain c := plain_of_class (by decide) h

theorem plain_of_isAlphanumeric (h : isAlphanumeric c = true) : Plain c := plain_of_class (by decide) h

theorem plain_of_isNameChar (h : isNameChar c = true) : Plain c := plain_of_class (by decide) h

theorem isAlphanumeric_eq_false_of_isBlank (h : isBlank c = true) : isAlphanumeric c = false := by
  have hall : ∀ n ∈ blankTable.flatMap fun range => List.range' range.1 (range.2 + 1 - range.1),
      isAlphanumeric (Char.ofNat n) = false := by
    decide +kernel
  obtain ⟨range, hr, hlow, hhigh⟩ := CharTable.contains_iff.mp h
  have hmem : c.toNat ∈ List.range' range.1 (range.2 + 1 - range.1) := by
    rw [List.mem_range'_1]
    omega
  simpa using hall c.toNat (List.mem_flatMap.mpr ⟨range, hr, hmem⟩)

theorem isAlphanumeric_of_isNameChar (h : isNameChar c = true) : isAlphanumeric c = true :=
  isAlphanumeric_of_isAlphanum (by simp [Char.isAlphanum, show c.isAlpha = true from h])

theorem isNameChar_eq_false (h : isAlphanumeric c = false) : isNameChar c = false := by
  rw [← Bool.not_eq_true] at h ⊢
  exact fun hn => h (isAlphanumeric_of_isNameChar hn)

namespace Scan

inductive Starting (c : Char) : Prop
  | blank (blank : isBlank c = true) (start : ∀ offset, start offset c = ([], between))
  | brace (brace : c = '{' ∨ c = '}') (start : ∀ offset, start offset c = (braceAt offset c, between))
  | slash (slash : c = '\\') (start : ∀ offset, start offset c = ([], escape [c]))
  | word (alphanumeric : isAlphanumeric c = true) (start : ∀ offset, start offset c = ([], word [c]))
  | symbol (plain : Plain c) (other : isAlphanumeric c = false)
      (start : ∀ offset, start offset c = ([.token [c]], between))

inductive Delimiting (seen : List Char) (c : Char) : Prop
  | blank (blank : isBlank c = true) (delimit : ∀ offset, delimit seen offset c = ([], sizing seen))
  | slash (slash : c = '\\') (delimit : ∀ offset, delimit seen offset c = ([], escape (c :: seen)))
  | apart (apart : standsApart c = true)
      (delimit : ∀ offset, delimit seen offset c = finish seen offset c)
  | symbol (plain : Plain c) (other : isAlphanumeric c = false)
      (delimit : ∀ offset, delimit seen offset c = ([.token (c :: seen).reverse], between))

theorem starting (c : Char) : Starting c := by
  by_cases hb : isBlank c = true
  · exact .blank hb fun offset => by simp [start, hb]
  by_cases ho : c = '{'
  · subst ho
    exact .brace (.inl rfl) fun offset => rfl
  by_cases hx : c = '}'
  · subst hx
    exact .brace (.inr rfl) fun offset => rfl
  by_cases hs : c = '\\'
  · subst hs
    exact .slash rfl fun offset => rfl
  by_cases ha : isAlphanumeric c = true
  · exact .word ha fun offset => by simp [start, hb, ho, hx, hs, ha]
  · exact .symbol ⟨ho, hx, hs⟩ (by simpa using ha) fun offset => by simp [start, hb, ho, hx, hs, ha]

theorem delimiting (seen : List Char) (c : Char) : Delimiting seen c := by
  by_cases hb : isBlank c = true
  · exact .blank hb fun offset => by simp [delimit, hb]
  by_cases hs : c = '\\'
  · subst hs
    exact .slash rfl fun offset => rfl
  by_cases ha : standsApart c = true
  · refine .apart ha fun offset => ?_
    simp only [standsApart] at ha
    simp [delimit, hb, hs, ha]
  · simp only [standsApart, Bool.or_eq_true, beq_iff_eq, not_or] at ha
    obtain ⟨⟨ha, ho⟩, hx⟩ := ha
    exact .symbol ⟨ho, hx, hs⟩ (by simpa using ha) fun offset => by simp [delimit, hb, ho, hx, hs, ha]

end Scan

theorem not_special_of_standsApart (h : standsApart c = true) : isBlank c = false ∧ c ≠ '\\' := by
  constructor
  · rw [← Bool.not_eq_true]
    intro hb
    have halpha := isAlphanumeric_eq_false_of_isBlank hb
    obtain ⟨ho, hx, -⟩ := plain_of_isBlank hb
    simp [standsApart, halpha, ho, hx] at h
  · rintro rfl
    revert h
    decide

theorem Scan.delimit_of_standsApart (h : standsApart c = true) (seen : List Char) (offset : Nat) :
    delimit seen offset c = finish seen offset c := by
  obtain ⟨hblank, hslash⟩ := not_special_of_standsApart h
  cases delimiting seen c with
  | blank blank _ => simp [hblank] at blank
  | slash slash _ => exact absurd slash hslash
  | apart _ hd => exact hd offset
  | symbol plain other _ =>
    obtain ⟨ho, hx, -⟩ := plain
    simp [standsApart, other, ho, hx] at h

end FormulaMatch
