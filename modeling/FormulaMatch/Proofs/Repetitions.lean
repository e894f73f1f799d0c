import FormulaMatch.Regex.Reading
import FormulaMatch.Proofs.Spans

/-! Repetitions in expressions that have been read. The reader refuses bounds in the wrong order, so none
of them asks for more rounds than it allows, and the search finds what such an expression matches. -/

namespace FormulaMatch

theorem bind_eq_ok_iff {ε α β : Type} {x : Except ε α} {f : α → Except ε β} {b : β} :
    (x >>= f) = .ok b ↔ ∃ a, x = .ok a ∧ f a = .ok b := by
  cases x <;> simp [bind, Except.bind]

theorem map_eq_ok_iff {ε α β : Type} {x : Except ε α} {f : α → β} {b : β} :
    x.map f = .ok b ↔ ∃ a, x = .ok a ∧ f a = b := by
  cases x <;> simp [Except.map]

theorem bounded_of_boundsOfChars {cs : List Char} {bounds : Nat × Option Nat}
    (h : boundsOfChars cs = .ok bounds) : ∀ m ∈ bounds.2, bounds.1 ≤ m := by
  obtain ⟨least, _, h⟩ := bind_eq_ok_iff.mp h
  split at h
  · cases h
    simp
  · cases h
    simp
  · obtain ⟨most, _, h⟩ := bind_eq_ok_iff.mp h
    split at h
    · cases h
      simpa
    · cases h

/-- A token that is no repetition, or one that allows as many rounds as it asks for. -/
def RegexToken.Bounded : RegexToken → Prop
  | .repeated least most => ∀ m ∈ most, least ≤ m
  | _ => True

namespace RegexScan

def Bounded : RegexScan → Prop
  | .quantified least most => ∀ m ∈ most, least ≤ m
  | _ => True

/-- A step that leaves off bounded tokens and goes on in a bounded state. -/
def Steps (result : List RegexToken × RegexScan) : Prop :=
  (∀ token ∈ result.1, token.Bounded) ∧ result.2.Bounded

variable {symbol : RegexSymbol} {result : List RegexToken × RegexScan}

theorem steps_nil {scan : RegexScan} (h : scan.Bounded) : Steps ([], scan) :=
  ⟨by simp, h⟩

theorem steps_single {token : RegexToken} (h : token.Bounded) : Steps ([token], between) :=
  ⟨by simpa using h, trivial⟩

theorem Steps.cons {token : RegexToken} (h : Steps result) (ht : token.Bounded) :
    Steps (token :: result.1, result.2) :=
  ⟨List.forall_mem_cons.mpr ⟨ht, h.1⟩, h.2⟩

theorem Steps.ite {p : Prop} [Decidable p] {other : List RegexToken × RegexScan} (h : Steps result)
    (ho : Steps other) : Steps (if p then result else other) := by
  split
  · exact h
  · exact ho

theorem start_steps (symbol : RegexSymbol) : Steps (start symbol) := by
  cases symbol with
  | plain c =>
    have hstar : (quantified 0 none).Bounded := by simp [Bounded]
    have hplus : (quantified 1 none).Bounded := by simp [Bounded]
    have hmark : (quantified 0 (some 1)).Bounded := by simp [Bounded]
    exact .ite (steps_nil trivial) <| .ite (steps_single trivial) <| .ite (steps_single trivial) <|
      .ite (steps_nil trivial) <| .ite (steps_nil trivial) <| .ite (steps_nil hstar) <|
      .ite (steps_nil hplus) <| .ite (steps_nil hmark) <| .ite (steps_single trivial) <|
      .ite (steps_single trivial) <| .ite (steps_single trivial) (steps_single trivial)
  | literal c | property p negated | textStart | textEnd => exact steps_single trivial

theorem startItem_steps {negated : Bool} {items : List SetItem}
    (h : startItem negated items symbol = .ok result) : Steps result := by
  unfold startItem at h
  split_ifs at h
  · cases h
    exact steps_single trivial
  · cases h
    exact steps_nil trivial

theorem startClass_steps {negated : Bool} {items : List SetItem}
    (h : startClass negated items symbol = .ok result) : Steps result := by
  unfold startClass at h
  split_ifs at h
  · cases h
    exact steps_nil trivial
  · cases h
    exact steps_nil trivial
  · exact startItem_steps h

theorem readFlag_steps {seen : List Char} (h : readFlag seen symbol = .ok result) : Steps result := by
  cases symbol with
  | plain c =>
    simp only [readFlag] at h
    split_ifs at h
    · obtain ⟨change, _, rfl⟩ := map_eq_ok_iff.mp h
      exact steps_single trivial
    · obtain ⟨change, _, rfl⟩ := map_eq_ok_iff.mp h
      exact steps_single trivial
    · cases h
      exact steps_nil trivial
  | literal c | property p negated | textStart | textEnd => cases h

theorem Bounded.step {scan : RegexScan} (hscan : scan.Bounded) (h : scan.step symbol = .ok result) :
    Steps result := by
  cases scan with
  | between =>
    cases h
    exact start_steps symbol
  | quantified least most =>
    simp only [RegexScan.step] at h
    split_ifs at h <;> cases h
    · exact steps_single hscan
    · exact (start_steps symbol).cons hscan
  | count seen =>
    cases symbol with
    | plain c =>
      simp only [RegexScan.step] at h
      split_ifs at h
      · obtain ⟨bounds, hbounds, rfl⟩ := map_eq_ok_iff.mp h
        exact steps_nil (bounded_of_boundsOfChars hbounds)
      · cases h
        exact steps_nil trivial
    | literal c | property p negated | textStart | textEnd => cases h
  | groupOpen =>
    simp only [RegexScan.step] at h
    split_ifs at h <;> cases h
    · exact steps_nil trivial
    · exact (start_steps symbol).cons trivial
  | groupKind =>
    simp only [RegexScan.step] at h
    split_ifs at h
    · cases h
      exact steps_nil trivial
    · cases h
      exact steps_nil trivial
    · exact readFlag_steps h
  | groupLetter =>
    simp only [RegexScan.step] at h
    split_ifs at h
    cases h
    exact steps_nil trivial
  | groupName seen =>
    cases symbol with
    | plain c =>
      simp only [RegexScan.step] at h
      split_ifs at h <;> cases h
      · exact steps_single trivial
      · exact steps_nil trivial
    | literal c | property p negated | textStart | textEnd => cases h
  | groupFlags seen => exact readFlag_steps h
  | classOpen =>
    simp only [RegexScan.step] at h
    split_ifs at h
    · cases h
      exact steps_nil trivial
    · exact startClass_steps h
  | classLead negated items => exact startClass_steps h
  | classBody negated items => exact startItem_steps h
  | classItem negated items first =>
    simp only [RegexScan.step] at h
    split_ifs at h
    · cases h
      exact steps_nil trivial
    · obtain ⟨item, _, h⟩ := bind_eq_ok_iff.mp h
      exact startItem_steps h
  | classRange negated items first =>
    simp only [RegexScan.step] at h
    split_ifs at h
    · obtain ⟨item, _, h⟩ := bind_eq_ok_iff.mp h
      exact startItem_steps h
    · obtain ⟨item, _, h⟩ := bind_eq_ok_iff.mp h
      cases h
      exact steps_nil trivial

theorem Bounded.run {scan : RegexScan} (hscan : scan.Bounded) {symbols : List RegexSymbol}
    {tokens : List RegexToken} (h : scan.run symbols = .ok tokens) : ∀ token ∈ tokens, token.Bounded := by
  induction symbols generalizing scan tokens with
  | nil =>
    cases scan with
    | between =>
      cases h
      simp
    | quantified least most =>
      cases h
      exact List.forall_mem_singleton.mpr hscan
    | _ => cases h
  | cons symbol symbols ih =>
    rw [RegexScan.run] at h
    split at h
    · cases h
    · rename_i first next hstep
      obtain ⟨more, hmore, rfl⟩ := map_eq_ok_iff.mp h
      obtain ⟨hfirst, hnext⟩ := hscan.step hstep
      exact List.forall_mem_append.mpr ⟨hfirst, ih hnext hmore⟩

end RegexScan

/-- The alternatives and items that are complete in a group are bounded. -/
structure RegexGroup.Bounded (group : RegexGroup) : Prop where
  alternatives : ∀ r ∈ group.alternatives, r.Bounded
  items : ∀ r, some r ∈ group.items → r.Bounded

namespace RegexGroup

variable {group : RegexGroup}

theorem bounded_new (flags : RegexFlags) : ({ flags } : RegexGroup).Bounded :=
  ⟨by simp, by simp⟩

theorem Bounded.push (h : group.Bounded) {item : Option Regex} (hitem : ∀ r ∈ item, r.Bounded) :
    (group.push item).Bounded := by
  refine ⟨h.alternatives, fun r hr => ?_⟩
  rcases List.mem_cons.mp hr with heq | hr
  · exact hitem r heq.symm
  · exact h.items r hr

theorem Bounded.row (h : group.Bounded) : group.row.Bounded := by
  have hall : ∀ items : List (Option Regex), (∀ r, some r ∈ items → r.Bounded) →
      (items.foldr (fun item r => Regex.concat (item.getD .empty) r) .empty).Bounded := by
    intro items
    induction items with
    | nil => exact fun _ => trivial
    | cons item items ih =>
      intro hitems
      refine ⟨?_, ih fun r hr => hitems r (List.mem_cons_of_mem _ hr)⟩
      cases item with
      | none => exact trivial
      | some r => exact hitems r List.mem_cons_self
  exact hall _ fun r hr => h.items r (List.mem_reverse.mp hr)

theorem Bounded.regex (h : group.Bounded) : group.regex.Bounded := by
  have hall : ∀ (alternatives : List Regex) (r : Regex), r.Bounded →
      (∀ s ∈ alternatives, s.Bounded) →
      (alternatives.foldl (fun r alternative => Regex.either alternative r) r).Bounded := by
    intro alternatives
    induction alternatives with
    | nil => exact fun _ hr _ => hr
    | cons s alternatives ih =>
      intro r hr hs
      exact ih _ ⟨hs s List.mem_cons_self, hr⟩ fun t ht => hs t (List.mem_cons_of_mem _ ht)
  exact hall _ _ h.row h.alternatives

end RegexGroup

namespace Regex

theorem bounded_of_ofTokens {group : RegexGroup} {outer : List RegexGroup} {tokens : List RegexToken}
    {r : Regex} (h : ofTokens group outer tokens = .ok r) (hgroup : group.Bounded)
    (houter : ∀ around ∈ outer, around.Bounded) (htokens : ∀ token ∈ tokens, token.Bounded) :
    r.Bounded := by
  induction tokens generalizing group outer with
  | nil =>
    rw [ofTokens] at h
    split at h <;> cases h
    exact hgroup.regex
  | cons token tokens ih =>
    obtain ⟨htoken, hrest⟩ := List.forall_mem_cons.mp htokens
    cases token with
    | one set | anyChar | textStart | textEnd =>
      exact ih h (hgroup.push (by simp [Regex.Bounded])) houter hrest
    | setFlags change =>
      have hflags : RegexGroup.Bounded { group with flags := group.flags.apply change } :=
        ⟨hgroup.alternatives, hgroup.items⟩
      exact ih h (hflags.push (by simp)) houter hrest
    | openGroup change name =>
      exact ih h (RegexGroup.bounded_new _) (List.forall_mem_cons.mpr ⟨hgroup, houter⟩) hrest
    | closeGroup =>
      cases outer with
      | nil => cases h
      | cons around outer =>
        obtain ⟨haround, houter⟩ := List.forall_mem_cons.mp houter
        exact ih h (haround.push fun r hr => by cases hr; exact hgroup.regex) houter hrest
    | bar =>
      refine ih h ⟨List.forall_mem_cons.mpr ⟨hgroup.row, hgroup.alternatives⟩, ?_⟩ houter hrest
      simp
    | «repeated» least most =>
      simp only [ofTokens] at h
      split at h
      · rename_i s items hitems
        refine ih h ⟨hgroup.alternatives, fun t ht => ?_⟩ houter hrest
        rcases List.mem_cons.mp ht with heq | ht
        · cases heq
          exact ⟨htoken, hgroup.items s (hitems ▸ List.mem_cons_self)⟩
        · exact hgroup.items t (hitems ▸ List.mem_cons_of_mem _ ht)
      · cases h

theorem read_eq_ok_iff {cs : List Char} {r : Regex} : read cs = .ok r ↔
    ∃ symbols tokens, regexSymbols cs = .ok symbols ∧ regexTokens symbols = .ok tokens ∧
      (groupNames tokens).Nodup ∧ ofTokens {} [] tokens = .ok r := by
  constructor
  · intro h
    obtain ⟨symbols, hsymbols, h⟩ := bind_eq_ok_iff.mp h
    obtain ⟨tokens, htokens, h⟩ := bind_eq_ok_iff.mp h
    split at h
    · exact ⟨symbols, tokens, hsymbols, htokens, ‹_›, h⟩
    · cases h
  · rintro ⟨symbols, tokens, hsymbols, htokens, hnames, h⟩
    refine bind_eq_ok_iff.mpr ⟨symbols, hsymbols, bind_eq_ok_iff.mpr ⟨tokens, htokens, ?_⟩⟩
    rw [if_pos hnames, h]

theorem bounded_of_read {cs : List Char} {r : Regex} (h : read cs = .ok r) : r.Bounded := by
  obtain ⟨symbols, tokens, _, htokens, _, h⟩ := read_eq_ok_iff.mp h
  have hbetween : RegexScan.between.Bounded := trivial
  exact bounded_of_ofTokens h (RegexGroup.bounded_new _) (by simp) (hbetween.run htokens)

end Regex

end FormulaMatch
