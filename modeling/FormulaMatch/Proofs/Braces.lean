import FormulaMatch.Fault
import FormulaMatch.Text.Words
import Mathlib.Data.List.Infix

/-! Counting the braces of a text. A backslash hides the character after it from the count. The depth of
a text tells whether its braces balance, and the depths of its beginnings tell which brace is the
first to close nothing and which is the last that nothing closes. -/

namespace FormulaMatch

/-- What the braces of a text come to, and whether the character after it is skipped. -/
structure BraceCount where
  depth : Int := 0
  skips : Bool := false

def BraceCount.step (count : BraceCount) (c : Char) : BraceCount :=
  if count.skips then { count with skips := false }
  else if c == '\\' then { count with skips := true }
  else if c == '{' then { count with depth := count.depth + 1 }
  else if c == '}' then { count with depth := count.depth - 1 }
  else count

def braceCount (cs : List Char) : BraceCount := cs.foldl BraceCount.step {}

def braceDepth (cs : List Char) : Int := (braceCount cs).depth

/-- Whether the text ends in a backslash that is not skipped itself. -/
def skipsNext (cs : List Char) : Bool := (braceCount cs).skips

/-- No brace of the text closes more than was opened before it. -/
def Grounded (cs : List Char) : Prop := ∀ ds, ds <+: cs → 0 ≤ braceDepth ds

structure Balanced (cs : List Char) : Prop where
  grounded : Grounded cs
  level : braceDepth cs = 0
  finished : skipsNext cs = false

/-- After `before` the text opens a group that it does not close. -/
def Unclosed (cs before : List Char) : Prop :=
  ∃ after, cs = before ++ '{' :: after ∧ skipsNext before = false ∧
    ∀ ds, ds <+: after → braceDepth before < braceDepth (before ++ '{' :: ds)

/-- The first fault of a text as the count finds it, with the byte at which the character stands. -/
inductive BraceFault (cs : List Char) : ReadError → Prop
  | strayBrace {before after} (split : cs = before ++ '}' :: after) (counted : skipsNext before = false)
      (grounded : Grounded before) (level : braceDepth before = 0) :
      BraceFault cs (.strayBrace (byteLength before))
  | trailingBackslash {before} (split : cs = before ++ ['\\']) (counted : skipsNext before = false)
      (grounded : Grounded before) : BraceFault cs (.trailingBackslash (byteLength before))
  | unclosedGroup {before} (grounded : Grounded cs) (finished : skipsNext cs = false)
      (unclosed : Unclosed cs before) (last : ∀ other, Unclosed cs other → other.length ≤ before.length) :
      BraceFault cs (.unclosedGroup (byteLength before))

/-- The bytes of the braces that a text leaves open, the innermost first. -/
inductive Opens : List Char → List Nat → Prop
  | level {cs : List Char} (level : braceDepth cs = 0) : Opens cs []
  | within {before after : List Char} {offsets : List Nat} (outer : Opens before offsets)
      (counted : skipsNext before = false)
      (inside : ∀ ds, ds <+: after → braceDepth before < braceDepth (before ++ '{' :: ds))
      (level : braceDepth (before ++ '{' :: after) = braceDepth before + 1) :
      Opens (before ++ '{' :: after) (byteLength before :: offsets)

variable {cs before after : List Char} {c : Char} {offsets : List Nat}

@[simp] theorem braceDepth_nil : braceDepth [] = 0 := rfl

@[simp] theorem skipsNext_nil : skipsNext [] = false := rfl

theorem skipsNext_concat (cs : List Char) (c : Char) :
    skipsNext (cs ++ [c]) = (!skipsNext cs && c == '\\') := by
  simp only [skipsNext, braceCount, List.foldl_append, List.foldl_cons, List.foldl_nil, BraceCount.step]
  split <;> rename_i hs
  · simp [hs]
  · split <;> rename_i hc
    · simp [hs, hc]
    · split
      · simp_all
      · split <;> simp_all

theorem braceDepth_concat (cs : List Char) (c : Char) : braceDepth (cs ++ [c]) =
    braceDepth cs + if skipsNext cs then 0 else if c = '{' then 1 else if c = '}' then -1 else 0 := by
  simp only [braceDepth, skipsNext, braceCount, List.foldl_append, List.foldl_cons, List.foldl_nil,
    BraceCount.step]
  split <;> rename_i hs
  · simp [hs]
  · by_cases hc : c = '\\'
    · simp [hs, hc]
    · by_cases ho : c = '{'
      · simp [hs, ho]
      · by_cases hx : c = '}' <;> simp [hs, hc, ho, hx, Int.sub_eq_add_neg]

theorem grounded_nil : Grounded [] := by
  intro ds hds
  rw [List.prefix_nil.mp hds]
  exact Int.le_refl 0

theorem grounded_concat (h : Grounded cs) (hc : 0 ≤ braceDepth (cs ++ [c])) : Grounded (cs ++ [c]) := by
  intro ds hds
  rcases List.prefix_concat_iff.mp hds with rfl | hds
  · exact hc
  · exact h ds hds

theorem exists_of_skipsNext (h : skipsNext cs = true) :
    ∃ before, cs = before ++ ['\\'] ∧ skipsNext before = false := by
  rcases List.eq_nil_or_concat cs with rfl | ⟨before, c, rfl⟩
  · simp at h
  · rw [List.concat_eq_append, skipsNext_concat, Bool.and_eq_true, Bool.not_eq_true', beq_iff_eq] at h
    exact ⟨before, by rw [List.concat_eq_append, h.2], h.1⟩

theorem Opens.depth_eq (h : Opens cs offsets) : braceDepth cs = offsets.length := by
  induction h with
  | level level => simpa using level
  | within outer counted inside level ih => rw [level, ih]; simp

theorem prefix_append_cases {ds : List Char} (h : ds <+: cs ++ after) :
    ds <+: cs ∨ ∃ more, ds = cs ++ more ∧ more <+: after := by
  rcases List.prefix_or_prefix_of_prefix h (List.prefix_append cs after) with hds | ⟨more, rfl⟩
  · exact .inl hds
  · exact .inr ⟨more, rfl, (List.prefix_append_right_inj cs).mp h⟩

/-- Braces that are opened and closed again do not change what is open. -/
theorem Opens.extend (h : Opens cs offsets)
    (kept : ∀ ds, ds <+: after → braceDepth cs ≤ braceDepth (cs ++ ds))
    (level : braceDepth (cs ++ after) = braceDepth cs) : Opens (cs ++ after) offsets := by
  cases h with
  | level hlevel => exact .level (level.trans hlevel)
  | @within before inner offsets outer counted inside hlevel =>
    rw [List.append_assoc, List.cons_append] at level ⊢
    refine .within outer counted (fun ds hds => ?_) (level.trans hlevel)
    rcases prefix_append_cases hds with hds | ⟨more, rfl, hmore⟩
    · exact inside ds hds
    · have hle := kept more hmore
      rw [List.append_assoc, List.cons_append] at hle
      omega

theorem Opens.concat (h : Opens cs offsets) (level : braceDepth (cs ++ [c]) = braceDepth cs) :
    Opens (cs ++ [c]) offsets := by
  refine h.extend (fun ds hds => ?_) level
  rcases List.prefix_concat_iff.mp (show ds <+: [] ++ [c] from hds) with rfl | hds
  · exact Int.le_of_eq level.symm
  · obtain rfl := List.prefix_nil.mp hds
    simp

theorem Opens.opening (h : Opens cs offsets) (counted : skipsNext cs = false) :
    Opens (cs ++ ['{']) (byteLength cs :: offsets) := by
  have hdepth : braceDepth (cs ++ ['{']) = braceDepth cs + 1 := by simp [braceDepth_concat, counted]
  refine .within h counted (fun ds hds => ?_) hdepth
  rw [List.prefix_nil.mp hds, hdepth]
  omega

theorem Opens.closing {offset : Nat} (h : Opens cs (offset :: offsets)) (counted : skipsNext cs = false) :
    Opens (cs ++ ['}']) offsets := by
  cases h with
  | @within before after _ outer _ inside level =>
    have hdepth : braceDepth (before ++ '{' :: (after ++ ['}'])) = braceDepth before := by
      rw [← List.cons_append, ← List.append_assoc, braceDepth_concat, counted, level]
      exact Int.add_neg_cancel_right _ 1
    rw [List.append_assoc, List.cons_append]
    refine outer.extend (fun ds hds => ?_) hdepth
    rw [List.prefix_cons_iff] at hds
    rcases hds with rfl | ⟨ds, rfl, hds⟩
    · simp
    · rcases List.prefix_concat_iff.mp hds with rfl | hds
      · exact Int.le_of_eq hdepth.symm
      · exact Int.le_of_lt (inside ds hds)

/-- The innermost brace that is open is the last that the text does not close. -/
theorem Opens.unclosed {offset : Nat} (h : Opens cs (offset :: offsets)) :
    ∃ before, byteLength before = offset ∧ Unclosed cs before ∧
      ∀ other, Unclosed cs other → other.length ≤ before.length := by
  cases h with
  | @within before after _ outer counted inside level =>
    refine ⟨before, rfl, ⟨after, rfl, counted, inside⟩, fun other ho => ?_⟩
    obtain ⟨after', hsplit, -, hother⟩ := ho
    by_contra hlt
    have hopening : before ++ ['{'] <+: before ++ '{' :: after := ⟨after, by simp⟩
    have hpre : before ++ ['{'] <+: other :=
      List.prefix_of_prefix_length_le hopening ⟨'{' :: after', hsplit.symm⟩ (by simp; omega)
    obtain ⟨ds, rfl⟩ := hpre
    simp only [List.append_assoc, List.cons_append, List.nil_append, List.append_cancel_left_eq,
      List.cons.injEq, true_and] at hsplit
    have hin := inside ds (hsplit ▸ List.prefix_append ds _)
    have hout := hother after' (List.prefix_refl _)
    simp only [List.append_assoc, List.cons_append, List.nil_append] at hout
    rw [← hsplit] at hout
    omega

theorem not_grounded_of_stray (counted : skipsNext before = false) (level : braceDepth before = 0) :
    ¬ Grounded (before ++ '}' :: after) := by
  intro h
  have hdepth := h (before ++ ['}']) ⟨after, by simp⟩
  simp [braceDepth_concat, counted, level] at hdepth

theorem grounded_of_trailing (counted : skipsNext before = false) (h : Grounded before) :
    Grounded (before ++ ['\\']) ∧ skipsNext (before ++ ['\\']) = true := by
  refine ⟨grounded_concat h ?_, by simp [skipsNext_concat, counted]⟩
  have hle := h before (List.prefix_refl _)
  simpa [braceDepth_concat, counted] using hle

theorem Unclosed.braceDepth_pos (h : Unclosed cs before) (hg : Grounded cs) : 0 < braceDepth cs := by
  obtain ⟨after, rfl, -, hinside⟩ := h
  have hlt := hinside after (List.prefix_refl _)
  have hle := hg before (List.prefix_append _ _)
  omega

theorem Unclosed.isPrefix (h : Unclosed cs before) : before <+: cs := by
  obtain ⟨after, rfl, -⟩ := h
  exact List.prefix_append _ _

theorem BraceFault.not_balanced {fault : ReadError} (h : BraceFault cs fault) : ¬ Balanced cs := by
  intro hb
  cases h with
  | strayBrace split counted _ level =>
    subst split
    exact not_grounded_of_stray counted level hb.grounded
  | trailingBackslash split counted grounded =>
    subst split
    have hfinished := hb.finished
    rw [← Bool.not_eq_true] at hfinished
    exact hfinished (grounded_of_trailing counted grounded).2
  | unclosedGroup grounded _ unclosed _ =>
    have hpos := unclosed.braceDepth_pos grounded
    have hzero := hb.level
    omega

theorem length_le_of_stray {other : List Char} (ho : other <+: before ++ '}' :: after)
    (hg : Grounded other) (counted : skipsNext before = false) (level : braceDepth before = 0) :
    other.length ≤ before.length := by
  by_contra hlt
  have hpre : before ++ ['}'] <+: other :=
    List.prefix_of_prefix_length_le ⟨after, by simp⟩ ho (by simp; omega)
  obtain ⟨ds, rfl⟩ := hpre
  rw [List.append_assoc, List.singleton_append] at hg
  exact not_grounded_of_stray counted level hg

theorem eq_of_isPrefix {other : List Char} (hb : before <+: cs) (ho : other <+: cs)
    (hle : before.length ≤ other.length) (hge : other.length ≤ before.length) : before = other :=
  (List.prefix_of_prefix_length_le hb ho hle).eq_of_length (Nat.le_antisymm hle hge)

theorem BraceFault.unique {fault fault' : ReadError} (h : BraceFault cs fault)
    (h' : BraceFault cs fault') : fault = fault' := by
  cases h with
  | @strayBrace before after split counted grounded level =>
    subst split
    have hno : ¬ Grounded (before ++ '}' :: after) := not_grounded_of_stray counted level
    cases h' with
    | @strayBrace other after' split' counted' grounded' level' =>
      have ho : other <+: before ++ '}' :: after := ⟨'}' :: after', split'.symm⟩
      have hle := length_le_of_stray ho grounded' counted level
      have hge := length_le_of_stray (split' ▸ List.prefix_append before _) grounded counted' level'
      rw [eq_of_isPrefix (List.prefix_append before _) ho hge hle]
    | trailingBackslash split' counted' grounded' =>
      exact absurd (split' ▸ (grounded_of_trailing counted' grounded').1) hno
    | unclosedGroup grounded' => exact absurd grounded' hno
  | @trailingBackslash before split counted grounded =>
    subst split
    obtain ⟨hg, hs⟩ := grounded_of_trailing counted grounded
    cases h' with
    | strayBrace split' counted' _ level' =>
      exact absurd (split' ▸ hg) (not_grounded_of_stray counted' level')
    | trailingBackslash split' => rw [(List.append_inj' split' rfl).1]
    | unclosedGroup _ finished' => simp [hs] at finished'
  | @unclosedGroup before grounded finished unclosed last =>
    cases h' with
    | strayBrace split' counted' _ level' =>
      exact absurd (split' ▸ grounded) (not_grounded_of_stray counted' level')
    | trailingBackslash split' counted' grounded' =>
      subst split'
      simp [(grounded_of_trailing counted' grounded').2] at finished
    | unclosedGroup _ _ unclosed' last' =>
      rw [eq_of_isPrefix unclosed.isPrefix unclosed'.isPrefix (last' _ unclosed) (last _ unclosed')]

end FormulaMatch
