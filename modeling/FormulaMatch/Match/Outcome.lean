import FormulaMatch.Fault

/-! Results of a match, which may fail because the candidate is malformed. -/

namespace FormulaMatch

inductive Outcome (α : Type) where
  | matched (value : α)
  | unmatched
  | malformed (fault : Fault)
  deriving DecidableEq, Repr

namespace Outcome

variable {α β : Type}

def bind (o : Outcome α) (f : α → Outcome β) : Outcome β :=
  match o with
  | matched a => f a
  | unmatched => unmatched
  | malformed fault => malformed fault

def map (f : α → β) (o : Outcome α) : Outcome β := o.bind fun a => matched (f a)

def isMatch : Outcome α → Bool
  | matched _ => true
  | unmatched | malformed _ => false

def value? : Outcome α → Option α
  | matched a => some a
  | unmatched | malformed _ => none

def fault? : Outcome α → Option Fault
  | malformed fault => some fault
  | matched _ | unmatched => none

def ofFault? : Option Fault → Outcome α
  | some fault => malformed fault
  | none => unmatched

/-- The value if the test holds, and a plain failure otherwise. -/
def guard (test : Bool) (a : α) : Outcome α := if test then matched a else unmatched

@[simp] theorem bind_matched (a : α) (f : α → Outcome β) : (matched a).bind f = f a := rfl

@[simp] theorem bind_unmatched (f : α → Outcome β) : (unmatched : Outcome α).bind f = unmatched :=
  rfl

@[simp] theorem bind_malformed (fault : Fault) (f : α → Outcome β) :
    (malformed fault : Outcome α).bind f = malformed fault := rfl

theorem bind_eq_matched_iff {o : Outcome α} {f : α → Outcome β} {b : β} :
    o.bind f = matched b ↔ ∃ a, o = matched a ∧ f a = matched b := by
  cases o <;> simp

theorem bind_eq_malformed_iff {o : Outcome α} {f : α → Outcome β} {fault : Fault} :
    o.bind f = malformed fault ↔
      o = malformed fault ∨ ∃ a, o = matched a ∧ f a = malformed fault := by
  cases o <;> simp

theorem isMatch_iff {o : Outcome α} : o.isMatch = true ↔ ∃ a, o = matched a := by
  cases o <;> simp [isMatch]

theorem value?_eq_some_iff {o : Outcome α} {a : α} : o.value? = some a ↔ o = matched a := by
  cases o <;> simp [value?]

theorem value?_eq_none_iff {o : Outcome α} : o.value? = none ↔ o.isMatch = false := by
  cases o <;> simp [value?, isMatch]

@[simp] theorem guard_eq_matched_iff {test : Bool} {a b : α} :
    guard test a = matched b ↔ test = true ∧ a = b := by
  cases test <;> simp [guard]

@[simp] theorem guard_ne_malformed (test : Bool) (a : α) (fault : Fault) :
    guard test a ≠ malformed fault := by
  cases test <;> simp [guard]

end Outcome

end FormulaMatch
