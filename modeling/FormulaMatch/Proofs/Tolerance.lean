import FormulaMatch.Proofs.Hits

/-! Which options a match depends on. Whether tokens may lead plays no part in a trial, and whether they
may follow plays none where every row of parts ends in a wildcard, which leaves nothing over. -/

namespace FormulaMatch

namespace Part

mutual

/-- Whether the part leaves no children of a node over: each row in it ends in a wildcard. -/
def tight : Part → Bool
  | .literal _ _ ps => ps.isEmpty || ((ps.getLast?.any isWildcard) && tights ps)
  | .wildcard _ _ => true

def tights : List Part → Bool
  | [] => true
  | p :: ps => p.tight && tights ps

end

theorem tights_cons {p : Part} {ps : List Part} :
    tights (p :: ps) = true ↔ p.tight = true ∧ tights ps = true := by
  rw [tights, Bool.and_eq_true]

theorem tight_literal {i : Nat} {h : Head} {ps : List Part} (hp : (literal i h ps).tight = true)
    (hne : ps ≠ []) : ps.getLast?.any isWildcard = true ∧ tights ps = true := by
  have he : ps.isEmpty = false := by simpa using hne
  simpa [tight, he] using hp

end Part

variable {options options' : Options} {ps : List Part} {queue left : List Node} {C D : Captures}

theorem Outcome.bind_congr {α β : Type} {o : Outcome α} {f g : α → Outcome β}
    (h : ∀ a, o = .matched a → f a = g a) : o.bind f = o.bind g := by
  cases o with
  | matched a => exact h a rfl
  | unmatched => rfl
  | malformed fault => rfl

theorem track_congr (hb : options.ignoreBrackets = options'.ignoreBrackets) :
    Pending.track options = Pending.track options' := by
  funext pending text
  simp only [Pending.track, hb]

theorem absorb_congr (hb : options.ignoreBrackets = options'.ignoreBrackets)
    {next : Node → Outcome Captures} {pending : Pending} :
    absorb options next pending queue = absorb options' next pending queue := by
  induction queue generalizing pending with
  | nil => rfl
  | cons n rest ih => simp only [absorb, track_congr hb, ih]

theorem absorbFrom_congr (hb : options.ignoreBrackets = options'.ignoreBrackets)
    {next : Node → Outcome Captures} {n : Node} :
    absorbFrom options next n queue = absorbFrom options' next n queue := by
  simp only [absorbFrom, track_congr hb, absorb_congr hb]

theorem isWildcard_of_getLast?_cons {p : Part} {rest : List Part}
    (hp : p.isWildcard = true → rest ≠ [])
    (h : (p :: rest).getLast?.any Part.isWildcard = true) :
    rest.getLast?.any Part.isWildcard = true := by
  cases rest with
  | nil =>
    have hw : p.isWildcard = true := by simpa using h
    exact absurd rfl (hp hw)
  | cons q rest => simpa [List.getLast?_cons_cons] using h

/-- A row that ends in a wildcard uses up all nodes. -/
theorem left_eq_nil (hl : ps.getLast?.any Part.isWildcard = true)
    (h : matchParts options ps queue C = .matched (left, D)) : left = [] := by
  obtain ⟨taken, ht⟩ := takes_of_matchParts h
  clear h
  induction ht with
  | nil => simp at hl
  | leaf _ _ _ ih => exact ih (isWildcard_of_getLast?_cons (by simp [Part.isWildcard]) hl)
  | branch _ _ _ _ _ _ ih => exact ih (isWildcard_of_getLast?_cons (by simp [Part.isWildcard]) hl)
  | last => rfl
  | stop _ _ _ _ _ _ _ _ ih => exact ih (isWildcard_of_getLast?_cons (by simp) hl)

theorem matchPart_congr_of_single {p : Part} {n : Node}
    (h : matchParts options [p] [n] C = matchParts options' [p] [n] C) :
    matchPart options p n C = matchPart options' p n C := by
  cases hw : p.isWildcard with
  | true =>
    cases p with
    | literal => simp [Part.isWildcard] at hw
    | wildcard => simp only [matchPart]
  | false =>
    rw [matchParts_single hw, matchParts_single hw] at h
    cases ho : matchPart options p n C <;> cases ho' : matchPart options' p n C <;>
      simp_all [Outcome.map]

/-- A trial depends on how brackets are treated and, where children may be left over, on whether
tokens may follow. -/
theorem matchParts_congr (hb : options.ignoreBrackets = options'.ignoreBrackets)
    (h : options.following = options'.following ∨ Part.tights ps = true) :
    matchParts options ps queue C = matchParts options' ps queue C := by
  induction ps using Part.row_induction generalizing queue C with
  | nil => simp only [matchParts]
  | literal i hd ps rest ihps ihrest =>
    have hrest : options.following = options'.following ∨ Part.tights rest = true :=
      h.imp_right fun ht => (Part.tights_cons.mp ht).2
    cases queue with
    | nil => simp only [matchParts]
    | cons n queue =>
      have hpart : matchPart options (.literal i hd ps) n C =
          matchPart options' (.literal i hd ps) n C := by
        by_cases hne : ps = []
        · simp [matchPart, hne]
        · have htight : options.following = options'.following ∨
              ps.getLast?.any Part.isWildcard = true ∧ Part.tights ps = true :=
            h.imp_right fun ht => Part.tight_literal (Part.tights_cons.mp ht).1 hne
          have hinner : matchParts options ps n.children C = matchParts options' ps n.children C :=
            ihps (htight.imp_right And.right)
          have hguard : ∀ result, matchParts options' ps n.children C = .matched result →
              Outcome.guard (options.following || result.1.isEmpty) result.2 =
                Outcome.guard (options'.following || result.1.isEmpty) result.2 := by
            intro result hr
            rcases htight with hf | ht
            · rw [hf]
            · simp [left_eq_nil ht.1 hr]
          simp only [matchPart, hinner, Outcome.bind_congr hguard]
      rw [matchParts, matchParts, hpart]
      exact Outcome.bind_congr fun _ _ => ihrest hrest
  | wildcard i hd rest ihrest ihpart =>
    have hrest : options.following = options'.following ∨ Part.tights rest = true :=
      h.imp_right fun ht => (Part.tights_cons.mp ht).2
    cases queue with
    | nil => cases rest <;> simp only [matchParts]
    | cons n queue =>
      cases rest with
      | nil => simp only [matchParts]
      | cons next rest =>
        have hsingle : options.following = options'.following ∨ Part.tights [next] = true :=
          hrest.imp_right fun ht => Part.tights_cons.mpr ⟨(Part.tights_cons.mp ht).1, rfl⟩
        have hnext : ∀ m, matchPart options next m C = matchPart options' next m C := fun m =>
          matchPart_congr_of_single (ihpart next List.mem_cons_self hsingle)
        rw [matchParts, matchParts, absorbFrom_congr hb]
        simp only [hnext]
        exact Outcome.bind_congr fun _ _ => Outcome.bind_congr fun _ _ => ihrest hrest

theorem matchRun_congr (hb : options.ignoreBrackets = options'.ignoreBrackets)
    (hf : options.following = options'.following) :
    matchRun options ps queue = matchRun options' ps queue := by
  simp only [matchRun, matchParts_congr hb (.inl hf), hf]

@[simp] theorem matchRun_withLeading (on : Bool) :
    matchRun (options.withLeading on) ps queue = matchRun options ps queue :=
  matchRun_congr rfl rfl

end FormulaMatch
