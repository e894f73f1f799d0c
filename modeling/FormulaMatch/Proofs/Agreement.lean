import FormulaMatch.Match.Captures
import FormulaMatch.Proofs.Shape

/-! Captures compared by shape. Assigning a run to a wildcard can fail only on the shape of its
earlier run, so a match depends on captures no further than their shapes. -/

namespace FormulaMatch.Captures

variable {C D E : Captures}

/-- A wildcard's name and the run that one of its occurrences took in. -/
abbrev Entry := String × List Node

def shape? (C : Captures) (name : String) : Option (List Expr) :=
  (C.get? name).map (List.map Formula.bare)

/-- Every wildcard that has a run has one of the same shape in the other captures. -/
def HeldBy (C D : Captures) : Prop :=
  ∀ name run, C.get? name = some run →
    ∃ other, D.get? name = some other ∧ Formula.sameShapes run other = true

def Alike (C D : Captures) : Prop := ∀ name, C.shape? name = D.shape? name

/-- The captures after the runs were written one after the other. -/
def record (C : Captures) (taken : List Entry) : Captures :=
  taken.foldl (fun C entry => C.insert entry.1 entry.2) C

theorem shape?_insert (C : Captures) (name other : String) (run : List Node) :
    shape? (C.insert name run) other =
      if other = name then some (run.map Formula.bare) else C.shape? other := by
  unfold shape?
  rw [NameMap.get?_insert]
  split <;> rfl

theorem heldBy_iff :
    C.HeldBy D ↔ ∀ name s, C.shape? name = some s → D.shape? name = some s := by
  constructor
  · intro h name s hs
    obtain ⟨run, hrun, rfl⟩ := Option.map_eq_some_iff.mp hs
    obtain ⟨other, hother, hsame⟩ := h name run hrun
    simp [shape?, hother, Formula.sameShapes_iff.mp hsame]
  · intro h name run hrun
    have hs := h name _ (by rw [shape?, hrun]; rfl)
    obtain ⟨other, hother, he⟩ := Option.map_eq_some_iff.mp hs
    exact ⟨other, hother, Formula.sameShapes_iff.mpr he.symm⟩

theorem HeldBy.shape? (h : C.HeldBy D) {name : String} {s : List Expr}
    (hs : C.shape? name = some s) : D.shape? name = some s := heldBy_iff.mp h name s hs

theorem HeldBy.refl (C : Captures) : C.HeldBy C := heldBy_iff.mpr fun _ _ h => h

theorem HeldBy.trans (h : C.HeldBy D) (h' : D.HeldBy E) : C.HeldBy E :=
  heldBy_iff.mpr fun _ _ hs => h'.shape? (h.shape? hs)

theorem empty_heldBy (D : Captures) : HeldBy .empty D := heldBy_iff.mpr fun _ _ h => by cases h

theorem Alike.symm (h : C.Alike D) : D.Alike C := fun name => (h name).symm

theorem Alike.heldBy (h : C.Alike D) : C.HeldBy D := heldBy_iff.mpr fun name _ hs => h name ▸ hs

theorem HeldBy.alike (h : C.HeldBy D) (h' : D.HeldBy C) : C.Alike D :=
  fun _ => Option.ext fun _ => ⟨h.shape?, h'.shape?⟩

theorem assign_eq_matched_iff {name : String} {run : List Node} :
    C.assign name run = .matched D ↔
      (∀ s, C.shape? name = some s → s = run.map Formula.bare) ∧ D = C.insert name run := by
  simp [assign_eq_matched_iff_sameShapes, shape?, Formula.sameShapes_iff]

theorem HeldBy.of_assign {name : String} {run : List Node}
    (h : C.assign name run = .matched D) : C.HeldBy D := by
  obtain ⟨hc, rfl⟩ := assign_eq_matched_iff.mp h
  refine heldBy_iff.mpr fun other s hs => ?_
  rw [shape?_insert]
  split
  · subst_vars
    rw [hc s hs]
  · exact hs

theorem shape?_of_assign {name : String} {run : List Node}
    (h : C.assign name run = .matched D) : D.shape? name = some (run.map Formula.bare) := by
  obtain ⟨_, rfl⟩ := assign_eq_matched_iff.mp h
  simp [shape?_insert]

/-- A run whose shape is held is consistent with everything that is held along with it. -/
theorem HeldBy.assign (h : C.HeldBy D) {name : String} {run : List Node}
    (hs : D.shape? name = some (run.map Formula.bare)) :
    C.assign name run = .matched (C.insert name run) ∧ HeldBy (C.insert name run) D := by
  refine ⟨assign_eq_matched_iff.mpr ⟨fun s hc => ?_, rfl⟩, heldBy_iff.mpr fun other s hc => ?_⟩
  · exact Option.some.inj ((h.shape? hc).symm.trans hs)
  · rw [shape?_insert] at hc
    split at hc
    · subst_vars
      rw [hs, hc]
    · exact h.shape? hc

theorem Alike.of_assign {C' D' : Captures} (h : C.Alike D) {name : String} {run run' : List Node}
    (hC : C.assign name run = .matched C') (hD : D.assign name run' = .matched D')
    (hrun : run.map Formula.bare = run'.map Formula.bare) : C'.Alike D' := by
  intro other
  rw [(assign_eq_matched_iff.mp hC).2, (assign_eq_matched_iff.mp hD).2, shape?_insert,
    shape?_insert, hrun, h other]

@[simp] theorem record_cons (C : Captures) (entry : Entry) (taken : List Entry) :
    C.record (entry :: taken) = record (C.insert entry.1 entry.2) taken := rfl

theorem record_append (C : Captures) (taken more : List Entry) :
    C.record (taken ++ more) = (C.record taken).record more := by
  simp [record]

theorem get?_record (C : Captures) (taken : List Entry) (name : String) :
    (C.record taken).get? name = (taken.reverse.lookup name).or (C.get? name) := by
  induction taken generalizing C with
  | nil => rfl
  | cons entry taken ih =>
    obtain ⟨key, run⟩ := entry
    rw [record_cons, ih, NameMap.get?_insert, List.reverse_cons, List.lookup_append, Option.or_assoc]
    by_cases h : name = key
    · simp [h]
    · have hb : (name == key) = false := by simpa using h
      simp [List.lookup_cons, h, hb]

/-- What was written before is forgotten where it is written again. -/
theorem record_insert_record (C : Captures) (ahead more : List Entry) (name : String)
    (run : List Node) :
    record ((C.record ahead).insert name run) (ahead ++ more) =
      record (C.insert name run) (ahead ++ more) := by
  rw [record_append, record_append]
  congr 1
  refine NameMap.ext_get? fun other => ?_
  rw [get?_record, get?_record, NameMap.get?_insert, NameMap.get?_insert, get?_record]
  by_cases h : other = name
  · simp [h]
  · cases hl : ahead.reverse.lookup other <;> simp [h]

end FormulaMatch.Captures
