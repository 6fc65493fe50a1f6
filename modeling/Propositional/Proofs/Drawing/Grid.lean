/-
The rows of a table, and its grid.

* `Table.rowList_eq`: where the vectors are long enough no row is missing.
* `Table.gridLines_eq`, `Table.exists_grid`: the lines of the grid, which is not empty.
-/
import Mathlib.Tactic
import Propositional.Drawing.Grid

namespace Propositional

lemma mapM_eq_map {α β ε : Type} {f : α → Except ε β} {g : α → β} {l : List α}
    (h : ∀ a ∈ l, f a = .ok (g a)) : l.mapM f = .ok (l.map g) := by
  induction l with
  | nil => rfl
  | cons a l ih =>
      rw [List.forall_mem_cons] at h
      rw [List.mapM_cons, h.1, ih h.2]
      rfl

namespace Table

variable {t : Table}

/-- The truth values in a row, for vectors that are long enough. -/
def valuesAt (t : Table) (i : ℕ) : List Bool := t.columns.map fun c => c.bits[i]?.getD false

/-- A row within all vectors holds a truth value of each. -/
lemma row_eq {i : ℕ} (h : ∀ c ∈ t.columns, i < c.bits.size) : t.row i = .ok (t.valuesAt i) := by
  refine mapM_eq_map fun c hc => ?_
  rw [signedIndex_ofNat (h c hc), Option.bind_some, Array.getElem?_eq_getElem (h c hc)]
  rfl

/-- The rows of a table are within vectors that are as long as the table. -/
lemma rowList_eq (h : ∀ c ∈ t.columns, t.rows ≤ c.bits.size) :
    t.rowList = .ok ((List.range t.rows).map t.valuesAt) :=
  mapM_eq_map fun _ hi => row_eq fun c hc => (List.mem_range.mp hi).trans_le (h c hc)

lemma gridLines_eq (h : ∀ c ∈ t.columns, t.rows ≤ c.bits.size) (g : Glyphs) :
    t.gridLines g = .ok ([t.rule, t.headerLine ++ "|", t.rule] ++
      ((List.range t.rows).map fun i => t.rowLine g (t.valuesAt i)) ++ [t.rule]) := by
  rw [gridLines, rowList_eq h, Except.map, List.map_map]
  rfl

/-- The grid is drawn, and it has at least the lines around the headers. -/
lemma exists_grid (h : ∀ c ∈ t.columns, t.rows ≤ c.bits.size) (g : Glyphs) :
    ∃ text, t.grid g = .ok text ∧ text ≠ "" := by
  refine ⟨_, by rw [grid, gridLines_eq h, Except.map], ?_⟩
  simp only [List.cons_append, List.map_cons, String.join_cons]
  intro hempty
  have hline := congrArg String.length hempty
  simp at hline

end Table

end Propositional
