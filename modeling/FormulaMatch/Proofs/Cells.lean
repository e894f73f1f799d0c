import FormulaMatch.Proofs.Siblings

/-! Trees written as rows of cells. A cell is appended before those of the node's children are, and their
numbers are entered into it when they are known. What is written in this way is the numbered formula,
with the place of every node beside it. -/

namespace FormulaMatch

/-- What is kept of a node: its head, the numbers of its children and of its parent, and its place among
its parent's children. -/
structure Cell where
  head : Head
  children : List Nat
  parent : Option Nat
  position : Nat
  deriving DecidableEq

mutual

/-- The cells with those of the expression behind them, and its number. -/
def writeCells (cells : List Cell) (parent : Option Nat) (position : Nat) : Expr → List Cell × Nat
  | .node _ h cs =>
    let id := cells.length
    let (cells, ids) := writeChildren (cells ++ [⟨h, [], parent, position⟩]) id 0 cs
    (cells.modify id fun cell => { cell with children := ids }, id)

def writeChildren (cells : List Cell) (owner position : Nat) : List Expr → List Cell × List Nat
  | [] => (cells, [])
  | c :: cs =>
    let (cells, id) := writeCells cells (some owner) position c
    let (cells, ids) := writeChildren cells owner (position + 1) cs
    (cells, id :: ids)

end

namespace Formula

mutual

/-- The cells of a numbered formula, each node's before those of its children. -/
def cells (parent : Option Nat) (position : Nat) : Node → List Cell
  | .node i h cs => ⟨h, cs.map label, parent, position⟩ :: cellsOfChildren i 0 cs

def cellsOfChildren (owner position : Nat) : List Node → List Cell
  | [] => []
  | c :: cs => c.cells (some owner) position ++ cellsOfChildren owner (position + 1) cs

end

theorem label_numberFrom {ι : Type} (f : Formula ι) (n : Nat) : (f.numberFrom n).label = n := by
  cases f
  rfl

theorem length_cells (n : Node) (parent : Option Nat) (position : Nat) :
    (n.cells parent position).length = n.size := by
  induction n using induction generalizing parent position with
  | node i h cs ih =>
    have hall : ∀ k, (cellsOfChildren i k cs).length = sizes cs := by
      induction cs with
      | nil => intro k; rfl
      | cons c cs ihc =>
        intro k
        rw [cellsOfChildren, sizes, List.length_append, ih c (by simp), ihc fun d hd => ih d (by simp [hd])]
    rw [cells, size, List.length_cons, hall, Nat.add_comm]

theorem modify_concat {α : Type} (xs : List α) (x : α) (ys : List α) (f : α → α) :
    (xs ++ x :: ys).modify xs.length f = xs ++ f x :: ys := by
  induction xs with
  | nil => rfl
  | cons y xs ih => simp [ih]

theorem writeCells_eq (e : Expr) (done : List Cell) (parent : Option Nat) (position : Nat) :
    writeCells done parent position e =
      (done ++ (e.numberFrom done.length).cells parent position, done.length) := by
  induction e using induction generalizing done parent position with
  | node i h cs ih =>
    have hall : ∀ done owner k, writeChildren done owner k cs =
        (done ++ cellsOfChildren owner k (numberAll done.length cs),
          (numberAll done.length cs).map label) := by
      induction cs with
      | nil => intro done owner k; simp [writeChildren, numberAll, cellsOfChildren]
      | cons c cs ihc =>
        intro done owner k
        have hlength : (done ++ (c.numberFrom done.length).cells (some owner) k).length =
            done.length + c.size := by
          rw [List.length_append, length_cells, size_numberFrom]
        rw [writeChildren, ih c (by simp), numberAll, cellsOfChildren, List.map_cons]
        simp only [ihc fun d hd => ih d (by simp [hd]), hlength, List.append_assoc, label_numberFrom]
    rw [writeCells]
    simp only [hall, List.length_append, List.length_singleton]
    rw [List.append_assoc, List.singleton_append, modify_concat, numberFrom, cells]

end Formula

end FormulaMatch
