import FormulaMatch.Regex.Basic
import Mathlib.Data.List.Infix

/-! What regular expressions match, said without a search. An expression stands for a relation between the
ends of a text, and the ends that a search reaches are those related to where it begins: rounds that
read nothing can be left out, so a search may stop after as many rounds as there are ends. -/

namespace FormulaMatch

section Rounds

variable {α : Type} {R : α → α → Prop} {a b c : α} {m n : Nat}

/-- From one to the other in `n` rounds of `R`. -/
def Rounds (R : α → α → Prop) : Nat → α → α → Prop
  | 0, a, b => a = b
  | n + 1, a, c => ∃ b, R a b ∧ Rounds R n b c

theorem rounds_add : Rounds R (m + n) a c ↔ ∃ b, Rounds R m a b ∧ Rounds R n b c := by
  induction m generalizing a with
  | zero => simp [Rounds]
  | succ m ih =>
    rw [Nat.add_right_comm]
    constructor
    · rintro ⟨b, hb, hrest⟩
      obtain ⟨d, hd, hlast⟩ := ih.mp hrest
      exact ⟨d, ⟨b, hb, hd⟩, hlast⟩
    · rintro ⟨d, ⟨b, hb, hd⟩, hlast⟩
      exact ⟨b, hb, ih.mpr ⟨d, hd, hlast⟩⟩

theorem Rounds.keeps {P : α → Prop} (hR : ∀ a b, R a b → P a → P b) (h : Rounds R n a b) (ha : P a) :
    P b := by
  induction n generalizing a with
  | zero => exact h ▸ ha
  | succ n ih =>
    obtain ⟨d, hd, hrest⟩ := h
    exact ih hrest (hR a d hd ha)

/-- Rounds that read nothing can be left out, and each of the others reads a character. -/
theorem Rounds.shorten {R : List α → List α → Prop} {a b : List α} {n : Nat}
    (hR : ∀ a b, R a b → b <:+ a) (h : Rounds R n a b) :
    ∃ m, m ≤ n ∧ m ≤ a.length ∧ Rounds R m a b := by
  induction n generalizing a with
  | zero => exact ⟨0, le_refl 0, Nat.zero_le _, h⟩
  | succ n ih =>
    obtain ⟨d, hd, hrest⟩ := h
    obtain ⟨m, hmn, hlength, hrounds⟩ := ih hrest
    have hsuffix := hR a d hd
    by_cases heq : d = a
    · subst heq
      exact ⟨m, by omega, hlength, hrounds⟩
    · have hlt : d.length < a.length :=
        lt_of_le_of_ne hsuffix.length_le fun hlen => heq (hsuffix.eq_of_length hlen)
      exact ⟨m + 1, by omega, by omega, d, hd, hrounds⟩

end Rounds

namespace Regex

variable {whole : List Char} {R : List Char → List Char → Prop} {f : List (List Char) → List (List Char)}
  {ends : List (List Char)} {a b : List Char} {n : Nat}

/-- The expression matches what lies between two ends of `whole`, from the first to the second. -/
def Spans (whole : List Char) : Regex → List Char → List Char → Prop
  | .empty => fun a b => a = b
  | .one ignoreCase set => fun a b => ∃ c, a = c :: b ∧ set.contains ignoreCase c = true
  | .textStart => fun a b => a = whole ∧ b = whole
  | .textEnd => fun a b => a = [] ∧ b = []
  | .concat r s => fun a c => ∃ b, r.Spans whole a b ∧ s.Spans whole b c
  | .either r s => fun a b => r.Spans whole a b ∨ s.Spans whole a b
  | .repeated least most r => fun a b =>
    ∃ n, least ≤ n ∧ (∀ m ∈ most, n ≤ m) ∧ Rounds (r.Spans whole) n a b

/-- No repetition asks for more rounds than it allows. -/
def Bounded : Regex → Prop
  | .empty | .one _ _ | .textStart | .textEnd => True
  | .concat r s | .either r s => r.Bounded ∧ s.Bounded
  | .repeated least most r => (∀ m ∈ most, least ≤ m) ∧ r.Bounded

/-- Matching goes forward in the text. -/
theorem Spans.isSuffix {r : Regex} (h : r.Spans whole a b) : b <:+ a := by
  induction r generalizing a b with
  | empty => exact h ▸ List.suffix_rfl
  | one ignoreCase set =>
    obtain ⟨c, rfl, _⟩ := h
    exact List.suffix_cons c b
  | textStart =>
    obtain ⟨rfl, rfl⟩ := h
    exact List.suffix_rfl
  | textEnd =>
    obtain ⟨rfl, rfl⟩ := h
    exact List.suffix_rfl
  | concat r s ihr ihs =>
    obtain ⟨d, hr, hs⟩ := h
    exact (ihs hs).trans (ihr hr)
  | either r s ihr ihs => exact h.elim ihr ihs
  | repeated least most r ih =>
    obtain ⟨n, _, _, hrounds⟩ := h
    exact hrounds.keeps (P := (· <:+ a)) (fun _ _ hd hsuffix => (ih hd).trans hsuffix) List.suffix_rfl

/-- From ends of `whole`, `f` reaches what `R` relates to one of them. -/
def Reaches (whole : List Char) (f : List (List Char) → List (List Char))
    (R : List Char → List Char → Prop) : Prop :=
  ∀ ends, (∀ a ∈ ends, a <:+ whole) → ∀ b, b ∈ f ends ↔ ∃ a ∈ ends, R a b

theorem Reaches.keeps (hf : Reaches whole f R) (hR : ∀ a b, R a b → b <:+ a)
    (hends : ∀ a ∈ ends, a <:+ whole) : ∀ b ∈ f ends, b <:+ whole := by
  intro b hb
  obtain ⟨a, ha, hab⟩ := (hf ends hends b).mp hb
  exact (hR a b hab).trans (hends a ha)

theorem Reaches.iterate (hf : Reaches whole f R) (hR : ∀ a b, R a b → b <:+ a) (n : Nat) :
    Reaches whole (iterate f n) (Rounds R n) := by
  induction n with
  | zero => intro ends _ b; simp [FormulaMatch.iterate, Rounds]
  | succ n ih =>
    intro ends hends b
    by_cases hnil : ends = []
    · simp [hnil, FormulaMatch.iterate]
    · have hstep : FormulaMatch.iterate f (n + 1) ends = FormulaMatch.iterate f n (f ends) := by
        simp [FormulaMatch.iterate, hnil]
      rw [hstep, ih (f ends) (hf.keeps hR hends)]
      constructor
      · rintro ⟨d, hd, hrest⟩
        obtain ⟨a, ha, had⟩ := (hf ends hends d).mp hd
        exact ⟨a, ha, d, had, hrest⟩
      · rintro ⟨a, ha, d, had, hrest⟩
        exact ⟨d, (hf ends hends d).mpr ⟨a, ha, had⟩, hrest⟩

/-- A round from all ends reached so far adds those one round further on. -/
theorem Reaches.closure (hf : Reaches whole f R) (hR : ∀ a b, R a b → b <:+ a) (n : Nat) :
    Reaches whole (closure f n) fun a b => ∃ m, m ≤ n ∧ Rounds R m a b := by
  induction n with
  | zero =>
    intro ends _ b
    simp [FormulaMatch.closure, Rounds]
  | succ n ih =>
    intro ends hends b
    have hmem : ∀ d, d ∈ (f ends).filter (fun d => !ends.contains d) ↔
        (∃ a ∈ ends, R a d) ∧ d ∉ ends := by
      intro d
      rw [List.mem_filter, hf ends hends d]
      simp
    rw [FormulaMatch.closure]
    generalize (f ends).filter (fun d => !ends.contains d) = fresh at hmem
    have hfresh : ∀ d ∈ fresh, d <:+ whole := by
      intro d hd
      obtain ⟨⟨a, ha, had⟩, _⟩ := (hmem d).mp hd
      exact (hR a d had).trans (hends a ha)
    by_cases hnil : fresh = []
    · -- nothing new is reached, so no number of rounds leaves `ends`
      have hclosed : ∀ a d, R a d → a ∈ ends → d ∈ ends := by
        intro a d had ha
        by_contra hd
        have hin := (hmem d).mpr ⟨⟨a, ha, had⟩, hd⟩
        simp [hnil] at hin
      simp only [hnil, List.isEmpty_nil, if_true]
      constructor
      · intro hb
        exact ⟨b, hb, 0, Nat.zero_le _, rfl⟩
      · rintro ⟨a, ha, m, _, hrounds⟩
        exact hrounds.keeps hclosed ha
    · have hall : ∀ a ∈ ends ++ fresh, a <:+ whole := by
        intro a ha
        exact (List.mem_append.mp ha).elim (hends a) (hfresh a)
      simp only [List.isEmpty_iff, hnil, if_false, ih (ends ++ fresh) hall b, List.mem_append]
      constructor
      · rintro ⟨d, hd | hd, m, hm, hrounds⟩
        · exact ⟨d, hd, m, by omega, hrounds⟩
        · obtain ⟨⟨a, ha, had⟩, _⟩ := (hmem d).mp hd
          exact ⟨a, ha, m + 1, by omega, d, had, hrounds⟩
      · rintro ⟨a, ha, m, hm, hrounds⟩
        cases m with
        | zero => exact ⟨a, .inl ha, 0, Nat.zero_le _, hrounds⟩
        | succ m =>
          obtain ⟨d, had, hrest⟩ := hrounds
          refine ⟨d, ?_, m, by omega, hrest⟩
          by_cases hd : d ∈ ends
          · exact .inl hd
          · exact .inr ((hmem d).mpr ⟨⟨a, ha, had⟩, hd⟩)

/-- The rounds that are needed come first, and of those that are allowed beyond them a search tries as
many as can read something. -/
theorem Reaches.repeated {r : Regex} {least : Nat} {most : Option Nat}
    (hr : Reaches whole (r.advance whole) (r.Spans whole)) (hbounds : ∀ m ∈ most, least ≤ m) :
    Reaches whole ((Regex.repeated least most r).advance whole)
      ((Regex.repeated least most r).Spans whole) := by
  have hsuffix : ∀ a b, r.Spans whole a b → b <:+ a := fun _ _ h => h.isSuffix
  have hround : Reaches whole (fun ends => (r.advance whole ends).eraseDups) (r.Spans whole) := by
    intro ends hends b
    rw [List.mem_eraseDups]
    exact hr ends hends b
  have hleast := hround.iterate hsuffix least
  intro ends hends b
  have hkept : ∀ d ∈ FormulaMatch.iterate (fun ends => (r.advance whole ends).eraseDups) least ends,
      d <:+ whole := by
    intro d hd
    obtain ⟨a, ha, hrounds⟩ := (hleast ends hends d).mp hd
    exact hrounds.keeps (P := (· <:+ whole)) (fun _ _ hcd hc => (hsuffix _ _ hcd).trans hc) (hends a ha)
  change b ∈ FormulaMatch.closure (r.advance whole) _ (FormulaMatch.iterate _ least ends) ↔ _
  rw [hr.closure hsuffix _ _ hkept]
  constructor
  · rintro ⟨d, hd, n, hn, hlast⟩
    obtain ⟨a, ha, hfirst⟩ := (hleast ends hends d).mp hd
    refine ⟨a, ha, least + n, by omega, ?_, rounds_add.mpr ⟨d, hfirst, hlast⟩⟩
    rintro m rfl
    have hle := hbounds m rfl
    simp only at hn
    omega
  · rintro ⟨a, ha, n, hle, hmost, hrounds⟩
    obtain ⟨more, rfl⟩ := Nat.exists_eq_add_of_le hle
    obtain ⟨d, hfirst, hlast⟩ := rounds_add.mp hrounds
    obtain ⟨m, hm, hlength, hshort⟩ := Rounds.shorten hsuffix hlast
    have hd := (hleast ends hends d).mpr ⟨a, ha, hfirst⟩
    have hdlength := (hkept d hd).length_le
    refine ⟨d, hd, m, ?_, hshort⟩
    cases most with
    | none =>
      simp only
      omega
    | some most =>
      have hmore := hmost most rfl
      simp only
      omega

/-- The search finds the ends that the expression spans to, and no others. -/
theorem reaches_advance {r : Regex} (h : r.Bounded) : Reaches whole (r.advance whole) (r.Spans whole) := by
  induction r with
  | empty => intro ends _ b; simp [advance, Spans]
  | one ignoreCase set =>
    intro ends _ b
    simp only [advance, Spans, List.mem_filterMap]
    refine exists_congr fun a => and_congr_right fun _ => ?_
    cases a with
    | nil => simp
    | cons c cs =>
      simp only [Option.ite_none_right_eq_some, Option.some.injEq, List.cons.injEq]
      constructor
      · rintro ⟨hc, rfl⟩
        exact ⟨c, ⟨rfl, rfl⟩, hc⟩
      · rintro ⟨d, ⟨rfl, rfl⟩, hc⟩
        exact ⟨hc, rfl⟩
  | textStart =>
    intro ends hends b
    simp only [advance, Spans, List.mem_filter, beq_iff_eq]
    constructor
    · rintro ⟨hb, hlength⟩
      have heq := (hends b hb).eq_of_length hlength
      exact ⟨b, hb, heq, heq⟩
    · rintro ⟨a, ha, rfl, rfl⟩
      exact ⟨ha, rfl⟩
  | textEnd =>
    intro ends _ b
    simp only [advance, Spans, List.mem_filter, List.isEmpty_iff]
    constructor
    · rintro ⟨hb, rfl⟩
      exact ⟨[], hb, rfl, rfl⟩
    · rintro ⟨a, ha, rfl, rfl⟩
      exact ⟨ha, rfl⟩
  | concat r s ihr ihs =>
    intro ends hends b
    have hr := ihr h.1
    rw [advance, ihs h.2 _ (hr.keeps (fun _ _ hab => hab.isSuffix) hends)]
    constructor
    · rintro ⟨d, hd, hdb⟩
      obtain ⟨a, ha, had⟩ := (hr ends hends d).mp hd
      exact ⟨a, ha, d, had, hdb⟩
    · rintro ⟨a, ha, d, had, hdb⟩
      exact ⟨d, (hr ends hends d).mpr ⟨a, ha, had⟩, hdb⟩
  | either r s ihr ihs =>
    intro ends hends b
    rw [advance, List.mem_eraseDups, List.mem_append, ihr h.1 ends hends, ihs h.2 ends hends]
    simp only [Spans, and_or_left, exists_or]
  | repeated least most r ih =>
    exact (ih h.2).repeated h.1

theorem suffixes_eq_tails {α : Type} (as : List α) : suffixes as = as.tails := by
  induction as with
  | nil => rfl
  | cons a as ih => rw [suffixes, ih, List.tails_cons]

/-- There is a match if the expression spans from one end of the text to another. -/
theorem isMatch_iff {r : Regex} (h : r.Bounded) {text : String} :
    r.isMatch text = true ↔ ∃ a b, a <:+ text.toList ∧ r.Spans text.toList a b := by
  have hends : ∀ a ∈ suffixes text.toList, a <:+ text.toList := by
    intro a ha
    rwa [suffixes_eq_tails, List.mem_tails] at ha
  have hreach : ∀ b, b ∈ r.advance text.toList (suffixes text.toList) ↔
      ∃ a ∈ suffixes text.toList, r.Spans text.toList a b := reaches_advance h _ hends
  rw [isMatch, Bool.not_eq_true', List.isEmpty_eq_false_iff_exists_mem]
  constructor
  · rintro ⟨b, hb⟩
    obtain ⟨a, ha, hab⟩ := (hreach b).mp hb
    exact ⟨a, b, hends a ha, hab⟩
  · rintro ⟨a, b, ha, hab⟩
    refine ⟨b, (hreach b).mpr ⟨a, ?_, hab⟩⟩
    rwa [suffixes_eq_tails, List.mem_tails]

end Regex

end FormulaMatch
