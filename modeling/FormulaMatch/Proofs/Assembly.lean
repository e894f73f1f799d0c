import FormulaMatch.Reading

/-! Lexemes that complete a formula, one rule for each kind of lexeme. The formula holds what was read
before and above it whatever is read behind it, and no backslash is left without a character. -/

namespace FormulaMatch

/-- The lexemes complete `e` after the items, last first, inside the groups. -/
inductive Assembles (e : Expr) : List Expr → OpenGroups → List Lexeme → Prop
  | done {items : List Expr} (complete : e = .sequence items.reverse) : Assembles e items [] []
  | token {items : List Expr} {outer : OpenGroups} {ls : List Lexeme} (text : List Char)
      (rest : Assembles e (.leaf (String.ofList text) :: items) outer ls) :
      Assembles e items outer (.token text :: ls)
  | opening {items : List Expr} {outer : OpenGroups} {ls : List Lexeme} (offset : Nat)
      (rest : Assembles e [] ((offset, items) :: outer) ls) : Assembles e items outer (.opening offset :: ls)
  | closing {items before : List Expr} {outer : OpenGroups} {ls : List Lexeme} (opened offset : Nat)
      (rest : Assembles e (.group items.reverse :: before) outer ls) :
      Assembles e items ((opened, before) :: outer) (.closing offset :: ls)

variable {items : List Expr} {outer : OpenGroups} {ls : List Lexeme} {e : Expr}

theorem assembles_of_assemble (h : assemble items outer ls = .ok e) : Assembles e items outer ls := by
  induction ls generalizing items outer with
  | nil =>
    cases outer with
    | nil => exact .done (Except.ok.inj h).symm
    | cons group outer => cases h
  | cons l ls ih =>
    cases l with
    | token text => exact .token text (ih h)
    | opening offset => exact .opening offset (ih h)
    | closing offset =>
      cases outer with
      | nil => cases h
      | cons group outer => exact .closing group.1 offset (ih h)
    | dangling offset => cases h

namespace Assembles

theorem not_dangling (h : Assembles e items outer ls) (n : Nat) : .dangling n ∉ ls := by
  induction h with
  | done => simp
  | token text _ ih | opening offset _ ih | closing opened offset _ ih => simpa using ih

theorem assemble_append (h : Assembles e items outer ls) (more : List Lexeme) :
    assemble items outer (ls ++ more) = assemble e.children.reverse [] more := by
  induction h with
  | @done items complete =>
    rw [complete, show (Expr.sequence items.reverse).children = items.reverse from rfl,
      List.reverse_reverse, List.nil_append]
  | token text _ ih | opening offset _ ih | closing opened offset _ ih => exact ih

theorem getLast?_children (h : Assembles e items outer ls) {text : List Char}
    (hl : ls.getLast? = some (.token text)) : e.children.getLast? = some (Expr.leaf (String.ofList text)) := by
  induction h with
  | done => cases hl
  | @token items outer ls last rest ih =>
    cases ls with
    | nil =>
      cases hl
      cases rest with
      | done complete =>
        rw [complete, List.reverse_cons]
        exact List.getLast?_concat
    | cons l ls => exact ih (by rwa [List.getLast?_cons_cons] at hl)
  | @opening items outer ls _ _ ih | @closing items before outer ls _ _ _ ih =>
    cases ls with
    | nil => cases hl
    | cons l ls => exact ih (by rwa [List.getLast?_cons_cons] at hl)

end Assembles

end FormulaMatch
