import FormulaMatch.Proofs.Unambiguity

/-! Words of brackets. Bars apart, the brackets of a run form a well-nested word once none of them
waits; those that wait in between are a stack which the rest of the word closes. -/

namespace FormulaMatch

/-- Each opening bracket is closed by the closing one of its family and sizing, and two pairs lie one
inside the other or side by side. -/
inductive WellNested : List Bracket → Prop
  | nil : WellNested []
  | pair {family sized inner rest} (inside : WellNested inner) (after : WellNested rest) :
      WellNested (⟨family, .opening, sized⟩ :: (inner ++ ⟨family, .closing, sized⟩ :: rest))

/-- The bracket that a token is, unless it is a bar. -/
def Bracket.paired? (text : String) : Option Bracket :=
  (ofText? text).filter fun b => !b.isSymmetric

theorem Bracket.paired?_eq {text : String} {b : Bracket} (h : ofText? text = some b) :
    paired? text = if b.isSymmetric then none else some b := by
  cases hs : b.isSymmetric <;> simp [paired?, h, Option.filter, hs]

/-- The word closes the opened brackets from the first on, and is well nested otherwise. -/
def Closes : List Bracket → List Bracket → Prop
  | [], word => WellNested word
  | b :: opened, word => b.side = .opening ∧ ∃ inner rest,
      word = inner ++ ⟨b.family, .closing, b.sized⟩ :: rest ∧ WellNested inner ∧ Closes opened rest

theorem Closes.opening {b : Bracket} {opened word : List Bracket} (h : Closes (b :: opened) word) :
    Closes opened (b :: word) := by
  obtain ⟨family, side, sized⟩ := b
  obtain ⟨hb, inner, rest, rfl, hinner, hrest⟩ := h
  subst hb
  cases opened with
  | nil => exact .pair hinner hrest
  | cons o opened =>
    obtain ⟨ho, inner', rest', rfl, hinner', hrest'⟩ := hrest
    have hpair : WellNested (⟨family, .opening, sized⟩ ::
        (inner ++ ⟨family, .closing, sized⟩ :: inner')) := .pair hinner hinner'
    exact ⟨ho, _, rest', by simp, hpair, hrest'⟩

theorem Closes.closing {b c : Bracket} {opened word : List Bracket} (h : Closes opened word)
    (hbc : b.closedBy c = true) (hc : c.side = .closing) : Closes (b :: opened) (c :: word) := by
  obtain ⟨family, side, sized⟩ := c
  simp only at hc
  subst hc
  have hb : b.side = .opening ∧ b.family = family ∧ b.sized = sized := by
    simpa [Bracket.closedBy, Bracket.isOpening, Bracket.isClosing, Bracket.isSymmetric,
      and_assoc] using hbc
  obtain ⟨hopen, rfl, rfl⟩ := hb
  exact ⟨hopen, [], word, rfl, .nil, h⟩

namespace Pending

/-- The brackets other than bars that wait. -/
def paired (pending : Pending) : List Bracket :=
  (pending.map Prod.fst).filter fun b => !b.isSymmetric

variable {pending after last : Pending} {text : String} {texts : List String}

theorem paired_cons (entry : Bracket × String) (pending : Pending) :
    paired (entry :: pending) =
      if entry.1.isSymmetric then pending.paired else entry.1 :: pending.paired := by
  cases h : entry.1.isSymmetric <;> simp [paired, h]

theorem filter_not_dropWhile {α : Type} (soft : α → Bool) (xs : List α) :
    (xs.dropWhile soft).filter (fun x => !soft x) = xs.filter fun x => !soft x := by
  induction xs with
  | nil => rfl
  | cons x xs ih => cases h : soft x <;> simp [h, ih]

theorem paired_dropWhile (pending : Pending) :
    paired (pending.dropWhile fun entry => entry.1.isSymmetric) = pending.paired := by
  rw [paired, paired, List.filter_map, List.filter_map]
  exact congrArg (List.map Prod.fst) (filter_not_dropWhile _ pending)

theorem paired_eq_nil (h : pending.mustClose = false) : pending.paired = [] := by
  simpa [paired, mustClose] using h

/-- A token that raises no fault does nothing, waits, or closes the bar or the bracket before it. -/
theorem feed_cases (h : pending.feed text = .matched after) :
    (Bracket.ofText? text = none ∧ after = pending) ∨
    ∃ b, Bracket.ofText? text = some b ∧
      ((b.side ≠ .closing ∧ after = (b, text) :: pending) ∨
      ∃ top, top.1.closedBy b = true ∧
        ((b.side = .symmetric ∧ pending = top :: after) ∨
        (b.side = .closing ∧
          (pending.dropWhile fun entry => entry.1.isSymmetric) = top :: after))) := by
  unfold feed at h
  cases hb : Bracket.ofText? text with
  | none =>
    simp only [hb, Outcome.matched.injEq] at h
    exact .inl ⟨rfl, h.symm⟩
  | some b =>
    refine .inr ⟨b, rfl, ?_⟩
    cases hside : b.side with
    | opening =>
      simp only [hb, hside, Outcome.matched.injEq] at h
      exact .inl ⟨by simp, h.symm⟩
    | symmetric =>
      simp only [hb, hside, Outcome.matched.injEq] at h
      cases pending with
      | nil => exact .inl ⟨by simp, h.symm⟩
      | cons top pending =>
        by_cases hc : top.1.closedBy b = true
        · simp only [feedBar, hc, if_true] at h
          exact .inr ⟨top, hc, .inl ⟨rfl, by rw [h]⟩⟩
        · simp only [feedBar, hc] at h
          exact .inl ⟨by simp, h.symm⟩
    | closing =>
      simp only [hb, hside, feedClosing] at h
      cases hd : pending.dropWhile fun entry => entry.1.isSymmetric with
      | nil => simp [hd] at h
      | cons top rest =>
        by_cases hc : top.1.closedBy b = true
        · simp only [hd, hc, if_true, Outcome.matched.injEq] at h
          exact .inr ⟨top, hc, .inr ⟨rfl, by rw [h]⟩⟩
        · simp [hd, hc] at h

theorem mem_of_feed (h : pending.feed text = .matched after) {entry : Bracket × String}
    (he : entry ∈ after) :
    entry ∈ pending ∨ Bracket.ofText? text = some entry.1 ∧ entry.2 = text := by
  rcases feed_cases h with ⟨-, rfl⟩ | ⟨b, hb, ⟨-, rfl⟩ | ⟨top, -, ⟨-, rfl⟩ | ⟨-, hd⟩⟩⟩
  · exact .inl he
  · rcases List.mem_cons.mp he with rfl | he
    · exact .inr ⟨hb, rfl⟩
    · exact .inl he
  · exact .inl (List.mem_cons_of_mem _ he)
  · have hmem := List.mem_cons_of_mem top he
    rw [← hd] at hmem
    exact .inl ((List.dropWhile_sublist _).subset hmem)

theorem mem_of_feedAll (h : pending.feedAll texts = .matched last) {entry : Bracket × String}
    (he : entry ∈ last) :
    entry ∈ pending ∨ Bracket.ofText? entry.2 = some entry.1 ∧ entry.2 ∈ texts := by
  induction texts generalizing pending with
  | nil =>
    rw [feedAll, Outcome.matched.injEq] at h
    exact .inl (h ▸ he)
  | cons text texts ih =>
    obtain ⟨after, hafter, h⟩ := Outcome.bind_eq_matched_iff.mp h
    rcases ih h with he | ⟨hb, he⟩
    · rcases mem_of_feed hafter he with he | ⟨hb, rfl⟩
      · exact .inl he
      · exact .inr ⟨hb, List.mem_cons_self⟩
    · exact .inr ⟨hb, List.mem_cons_of_mem _ he⟩

theorem closes_of_feed {word : List Bracket} (h : pending.feed text = .matched after)
    (hw : Closes after.paired word) :
    Closes pending.paired ((Bracket.paired? text).toList ++ word) := by
  rcases feed_cases h with ⟨hb, rfl⟩ | ⟨b, hb, hb'⟩
  · simpa [Bracket.paired?, hb] using hw
  · rw [Bracket.paired?_eq hb]
    rcases hb' with ⟨hside, rfl⟩ | ⟨top, hc, ⟨hside, rfl⟩ | ⟨hside, hd⟩⟩
    -- The token waits: if it is not a bar, the rest of the word closes it first.
    · rw [paired_cons] at hw
      by_cases hsym : b.isSymmetric = true
      · simpa [hsym] using hw
      · simp only [hsym] at hw
        simpa [hsym] using hw.opening
    -- A bar closes a bar, and neither is part of the word.
    · have hsym : b.isSymmetric = true := by simp [Bracket.isSymmetric, hside]
      have htop : top.1.isSymmetric = true := by
        simp_all [Bracket.closedBy, Bracket.isClosing]
      simpa [hsym, paired_cons, htop] using hw
    -- The bars on top of the partner are discarded; they are not part of the word either.
    · have hsym : b.isSymmetric = false := by simp [Bracket.isSymmetric, hside]
      have htop : top.1.isSymmetric = false := by
        simp_all [Bracket.closedBy, Bracket.isClosing, Bracket.isOpening, Bracket.isSymmetric]
      rw [← paired_dropWhile, hd, paired_cons]
      simpa [hsym, htop] using hw.closing hc hside

/-- Tokens after which no bracket must be closed have closed all those that waited. -/
theorem closes_of_feedAll (h : pending.feedAll texts = .matched last)
    (hl : last.mustClose = false) : Closes pending.paired (texts.filterMap Bracket.paired?) := by
  induction texts generalizing pending with
  | nil =>
    rw [feedAll, Outcome.matched.injEq] at h
    rw [h, paired_eq_nil hl]
    exact .nil
  | cons text texts ih =>
    obtain ⟨after, hafter, h⟩ := Outcome.bind_eq_matched_iff.mp h
    have hw := closes_of_feed hafter (ih h)
    cases hb : Bracket.paired? text <;> simpa [hb] using hw

end Pending

end FormulaMatch
