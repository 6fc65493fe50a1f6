/-
The rows of a table as assignments to its simple propositions.

* `Formula.exists_mem_atoms`, `Proposition.simple_ne_nil`: every request has a simple
  proposition.
* `Evaluation.IsOf.getElem?_simple`: the vector of a simple proposition, digit by digit.
* `Column.Free`, `Table.Carries`: the simple columns that are no constants, and the rows in
  which they have given values.
* `Evaluation.IsOf.card_carries`: every assignment has equally many rows, one for each choice
  of digits for the constants.
* `Table.ofText_assignments`: the rows of the table of a text.
-/
import Propositional.Proofs.Columns

namespace Propositional

/-! ### Simple propositions -/

lemma Formula.exists_mem_atoms (f : Formula) : ∃ n, n ∈ f.atoms := by
  induction f with
  | atom n => exact ⟨n, List.mem_singleton_self n⟩
  | neg f ih => exact ih
  | binary c l r ihl ihr =>
      obtain ⟨n, hn⟩ := ihl
      exact ⟨n, List.mem_append_left _ hn⟩
  | group b f ih => exact ih

/-- A request without clashes has a simple proposition: the atoms of its first proposition
come before every definition. -/
lemma Proposition.simple_ne_nil {numeric : Bool} {text : String} {ps : List Proposition}
    (h : parse numeric text = .ok ps) (hps : ∀ i, ¬ Clash ps i) : simple ps ≠ [] := by
  obtain ⟨is, -, rfl⟩ := (Reading.result_eq_ok_iff _ _).mp h
  obtain ⟨p, rest, hsplit⟩ := List.exists_cons_of_ne_nil is.propositions_ne_nil
  rw [hsplit] at hps ⊢
  obtain ⟨n, hn⟩ := p.formula.exists_mem_atoms
  have hatom : n ∈ atoms (p :: rest) := mem_atoms.mpr ⟨p, List.mem_cons_self, hn⟩
  have hname : n ∉ names (p :: rest) := by
    intro hdef
    have hbefore : n ∈ names [] := mem_names_of_mem_atoms hps hn hdef
    exact List.not_mem_nil hbefore
  exact List.ne_nil_of_mem (mem_simple.mpr ⟨hatom, hname⟩)

namespace Evaluation.IsOf

variable {numeric : Bool} {ps : List Proposition} {e : Evaluation} {n : String} {bits : Bits}
  {i j : ℕ}

/-- A simple proposition has the value of its name in the row. -/
lemma getElem?_simple (h : e.IsOf numeric ps) (hmem : (n, bits) ∈ e.simple) (hi : i < e.rows) :
    bits[i]? = some ((constant? numeric n).getD (Bits.assigned (Proposition.simple ps) i n)) := by
  obtain ⟨hn, hvector⟩ := h.hasVector_simple hmem
  refine (hvector.means i hi _).mpr ?_
  rw [Formula.means_atom_given_iff (Proposition.mem_simple.mp hn).2]
  exact h.value_eq hn hi

/-- The value of a name is a binary digit of the row, the highest for the first name. -/
lemma assigned_eq_testBit (h : e.IsOf numeric ps) (hj : e.simple[j]? = some (n, bits))
    (hi : i < e.rows) :
    Bits.assigned (Proposition.simple ps) i n = i.testBit (e.simple.length - 1 - j) := by
  have hn : (Proposition.simple ps)[j]? = some n := by
    rw [← h.map_fst_simple, List.getElem?_map, hj]
    rfl
  have hlength : (Proposition.simple ps).length = e.simple.length := by
    rw [← h.map_fst_simple, List.length_map]
  rw [Bits.assigned_eq_testBit (Proposition.nodup_simple ps) (h.rows ▸ hi) hn, hlength]

end Evaluation.IsOf

/-! ### Assignments -/

/-- A column whose name is no constant. -/
def Column.Free (numeric : Bool) (c : Column) : Prop := constant? numeric c.name = none

instance (numeric : Bool) : DecidablePred (Column.Free numeric) :=
  fun c => inferInstanceAs (Decidable (constant? numeric c.name = none))

namespace Table

/-- In a row the given columns, except for the constants, have the values of an
assignment. -/
def Carries (numeric : Bool) (simple : List Column) (w : String → Bool) (i : ℕ) : Prop :=
  ∀ c ∈ simple, c.Free numeric → c.bits[i]? = some (w c.name)

instance (numeric : Bool) (simple : List Column) (w : String → Bool) :
    DecidablePred (Carries numeric simple w) :=
  fun i => inferInstanceAs
    (Decidable (∀ c ∈ simple, c.Free numeric → c.bits[i]? = some (w c.name)))

/-- The rows of a table that go through the assignments to its simple propositions. -/
structure Enumerates (numeric : Bool) (ps : List Proposition) (t : Table)
    (simple compounds : List Column) : Prop extends Parts ps t simple compounds where
  /-- The simple propositions are in order, each of them once. -/
  increasing : simple.Pairwise fun c d => c.name < d.name
  /-- There is at least one, and each doubles the rows. -/
  pos : 1 ≤ simple.length
  rows : t.rows = 2 ^ simple.length
  size : ∀ c ∈ t.columns, c.bits.size = t.rows
  /-- A constant has its own value in every row, and any other simple proposition a binary
  digit of the row. -/
  digit : ∀ j c, simple[j]? = some c → ∀ i < t.rows,
    c.bits[i]? = some ((constant? numeric c.name).getD (i.testBit (simple.length - 1 - j)))
  /-- Every assignment to the others is carried by one row for each choice of the digits
  that the constants leave out. -/
  carried : ∀ w : String → Bool,
    ((Finset.range t.rows).filter (Carries numeric simple w)).card =
      2 ^ simple.countP fun c => ¬ c.Free numeric

end Table

namespace Evaluation.IsOf

variable {numeric : Bool} {ps : List Proposition} {e : Evaluation}

/-- A row carries an assignment if the names that are no constants have its values. -/
lemma carries_iff (h : e.IsOf numeric ps) (w : String → Bool) {i : ℕ} (hi : i < e.rows) :
    Table.Carries numeric (e.simple.map (simpleColumn true)) w i ↔
      ∀ n ∈ (Proposition.simple ps).filter fun n => constant? numeric n = none,
        Bits.assigned (Proposition.simple ps) i n = w n := by
  have hvalue : ∀ entry ∈ e.simple, constant? numeric entry.1 = none →
      entry.2[i]? = some (Bits.assigned (Proposition.simple ps) i entry.1) := by
    intro entry hentry hfree
    rw [h.getElem?_simple hentry hi, hfree]
    rfl
  constructor
  · intro hcarries n hn
    obtain ⟨hn, hfree⟩ := List.mem_filter.mp hn
    rw [← h.map_fst_simple] at hn
    obtain ⟨entry, hentry, rfl⟩ := List.mem_map.mp hn
    have hbit := hcarries _ (List.mem_map_of_mem hentry) (of_decide_eq_true hfree)
    exact Option.some.inj ((hvalue entry hentry (of_decide_eq_true hfree)).symm.trans hbit)
  · intro hassigned c hc hfree
    obtain ⟨entry, hentry, rfl⟩ := List.mem_map.mp hc
    have hn : entry.1 ∈ Proposition.simple ps := h.map_fst_simple ▸ List.mem_map_of_mem hentry
    have hw := hassigned entry.1 (List.mem_filter.mpr ⟨hn, decide_eq_true hfree⟩)
    exact (hvalue entry hentry hfree).trans (congrArg some hw)

/-- Every assignment is carried by one row for each choice of digits for the constants. -/
lemma card_carries (h : e.IsOf numeric ps) (w : String → Bool) :
    ((Finset.range e.rows).filter
      (Table.Carries numeric (e.simple.map (simpleColumn true)) w)).card =
        2 ^ (Proposition.simple ps).countP fun n => ¬ constant? numeric n = none := by
  -- the names that are no constants, and the row of the assignment among their own rows
  let free := (Proposition.simple ps).filter fun n => constant? numeric n = none
  have hsub : free.Sublist (Proposition.simple ps) := List.filter_sublist
  have hlength : (Proposition.simple ps).length - free.length =
      (Proposition.simple ps).countP fun n => ¬ constant? numeric n = none := by
    have hcount : (Proposition.simple ps).length = _ :=
      List.length_eq_countP_add_countP fun n => constant? numeric n = none
    have hfree : free.length = (Proposition.simple ps).countP fun n => constant? numeric n = none :=
      List.countP_eq_length_filter.symm
    simp only [decide_eq_true_eq] at hcount
    omega
  calc
    _ = ((Finset.range e.rows).filter fun i =>
          Bits.rowOf free (Bits.assigned (Proposition.simple ps) i) = Bits.rowOf free w).card := by
      refine congrArg Finset.card (Finset.filter_congr fun i hi => ?_)
      rw [h.carries_iff w (Finset.mem_range.mp hi), Bits.rowOf_eq_iff]
    _ = 2 ^ ((Proposition.simple ps).length - free.length) := by
      rw [h.rows, ← Nat.count_eq_card_filter_range]
      exact Bits.count_rowOf hsub (Proposition.nodup_simple ps) (Bits.rowOf_lt free w)
    _ = _ := by rw [hlength]

/-- The table of an evaluation goes through the assignments in order. -/
lemma enumerates (h : e.IsOf numeric ps) (hne : Proposition.simple ps ≠ []) :
    (e.table numeric true).Enumerates numeric ps (e.simple.map (simpleColumn true))
      (e.compounds.map (column true)) := by
  have hlength : (e.simple.map (simpleColumn true)).length = (Proposition.simple ps).length := by
    rw [← h.map_fst_simple, List.length_map, List.length_map]
  refine { toParts := h.parts true, increasing := ?_, pos := ?_, rows := ?_,
           size := fun c hc => ?_, digit := fun j c hj i hi => ?_, carried := fun w => ?_ }
  · have hsorted := Proposition.sorted_simple ps
    rw [← h.map_fst_simple, List.pairwise_map] at hsorted
    exact List.pairwise_map.mpr hsorted
  · rw [hlength]
    exact List.length_pos_of_ne_nil hne
  · rw [hlength]
    exact h.rows
  · obtain ⟨f, -, hvector⟩ := h.exists_formula true hc
    exact hvector.size
  · rw [List.getElem?_map, Option.map_eq_some_iff] at hj
    obtain ⟨⟨n, bits⟩, hj, rfl⟩ := hj
    rw [List.length_map, ← h.assigned_eq_testBit hj hi]
    exact h.getElem?_simple (List.mem_of_getElem? hj) hi
  · refine (h.card_carries w).trans ?_
    rw [← h.map_fst_simple, List.countP_map, List.countP_map]
    rfl

end Evaluation.IsOf

/-- **The rows of a table are the assignments.**  In the table of a text, with its rows in
order, there is at least one simple proposition, and a row for each choice of one digit for
each of them.  A row gives the simple propositions its binary digits, except for the constants
of the mode, so that every assignment to those that are no constants is carried by equally many
rows. -/
theorem Table.ofText_assignments {numeric : Bool} {text : String} {t : Table}
    (h : Table.ofText numeric true text = .ok t) :
    ∃ ps, Proposition.parse numeric text = .ok ps ∧
      ∃ simple compounds, t.Enumerates numeric ps simple compounds := by
  obtain ⟨ps, e, hps, hclash, he, rfl⟩ := exists_isOf h
  exact ⟨ps, hps, _, _, he.enumerates (Proposition.simple_ne_nil hps hclash)⟩

/-- A letter that is a constant, between two that are not. -/
theorem Table.ofText_assignments_letter :
    ∃ t, Table.ofText false true "p = A v f & z, p" = .ok t ∧
      ∃ ps, Proposition.parse false "p = A v f & z, p" = .ok ps ∧
        ∃ simple compounds, t.Enumerates false ps simple compounds :=
  have h : Table.ofText false true "p = A v f & z, p" =
      .ok ⟨[⟨"A", "A", #[false, false, false, false, true, true, true, true], .simple⟩,
        ⟨"f", "f", #[false, false, false, false, false, false, false, false], .simple⟩,
        ⟨"z", "z", #[false, true, false, true, false, true, false, true], .simple⟩,
        ⟨"p", "p = A ∨ f ∧ z", #[false, false, false, false, true, true, true, true], .named⟩],
        8, false, true⟩ := by decide +kernel
  ⟨_, h, Table.ofText_assignments h⟩

end Propositional
