/-
Tables with their rows in the opposite order.

* `Column.reversed`, `EquivalenceClass.reversed`: a column and a class with the rows in the
  opposite order.
* `EquivalenceClass.ofColumns_reversed`, `Bits.entails_reverse`: the columns are divided in the
  same way, and their vectors entail each other as before.
* `Table.Mirrors`, `Entailment.Mirrors`: two tables with opposite rows, and the orders of their
  columns; `Entailment.mirrors_ofTable` goes from the tables to the orders and
  `Entailment.Mirrors.exists_reduction` to their diagrams.
* `Table.ofText_reversed`: the option for the order of the rows changes nothing else.
-/
import Propositional.Proofs.Display

namespace Propositional

/-! ### Columns -/

/-- A column with its rows in the opposite order. -/
def Column.reversed (c : Column) : Column := { c with bits := c.bits.reverse }

namespace Column

variable {c : Column}

lemma map_heading_reversed (columns : List Column) :
    (columns.map reversed).map heading = columns.map heading := by
  rw [List.map_map]
  rfl

lemma isTautology_reversed (c : Column) : c.reversed.isTautology = c.isTautology :=
  Array.all_reverse

lemma isContradiction_reversed (c : Column) : c.reversed.isContradiction = c.isContradiction :=
  congrArg Bool.not Array.any_reverse

end Column

/-! ### Classes -/

/-- A class with the rows of its vector and its members in the opposite order. -/
def EquivalenceClass.reversed (k : EquivalenceClass) : EquivalenceClass :=
  ⟨k.bits.reverse, k.members.map Column.reversed⟩

namespace EquivalenceClass

/-- A class names its members and not their rows. -/
lemma label_reversed (k : EquivalenceClass) : k.reversed.label = k.label := by
  rw [label, label, reversed, List.map_map]
  rfl

/-- A column joins the class that it joined before. -/
lemma insert_reversed (c : Column) (classes : List EquivalenceClass) :
    insert c.reversed (classes.map reversed) = (insert c classes).map reversed := by
  induction classes with
  | nil => rfl
  | cons k classes ih =>
      have hbits : k.reversed.bits = c.reversed.bits ↔ k.bits = c.bits :=
        Array.reverse_inj
      rw [List.map_cons, insert, insert]
      by_cases h : k.bits = c.bits
      · rw [if_pos h, if_pos (hbits.mpr h), List.map_cons, reversed, reversed, List.map_append]
        rfl
      · rw [if_neg h, if_neg (mt hbits.mp h), List.map_cons, ih]

/-- The columns are divided in the same way. -/
lemma ofColumns_reversed (columns : List Column) :
    ofColumns (columns.map Column.reversed) = (ofColumns columns).map reversed := by
  induction columns using List.reverseRecOn with
  | nil => rfl
  | append_singleton columns c ih =>
      rw [ofColumns] at ih ⊢
      rw [ofColumns, List.map_append, List.foldl_append, List.foldl_append, ih]
      exact insert_reversed c _

end EquivalenceClass

/-! ### Entailments -/

/-- What a vector shows in a row, it shows in the opposite row when it is reversed. -/
lemma Bits.getElem?_reverse {a : Bits} {n i : ℕ} (ha : a.size = n) (hi : i < n) :
    a.reverse[i]? = a[n - 1 - i]? := by
  rw [Array.getElem?_reverse (ha ▸ hi), ha]

/-- Reversed vectors entail each other as before. -/
lemma Bits.entails_reverse {a b : Bits} {n : ℕ} (ha : a.size = n) (hb : b.size = n) :
    entails a.reverse b.reverse = entails a b := by
  have hmono : ∀ {a b : Bits}, a.size = n → b.size = n → entails a b = true →
      entails a.reverse b.reverse = true := by
    intro a b ha hb h
    rw [entails_iff ha hb] at h
    rw [entails_iff (Array.size_reverse.trans ha) (Array.size_reverse.trans hb)]
    intro i hi
    rw [getElem?_reverse ha hi, getElem?_reverse hb hi]
    exact h (n - 1 - i) (by omega)
  rw [Bool.eq_iff_iff]
  refine ⟨fun h => ?_, hmono ha hb⟩
  have hback := hmono (Array.size_reverse.trans ha) (Array.size_reverse.trans hb) h
  rwa [Array.reverse_reverse, Array.reverse_reverse] at hback

/-- The reversed classes are related as before. -/
lemma Entailment.related_reversed {classes : List EquivalenceClass} {n : ℕ}
    (hsize : ∀ k ∈ classes, k.bits.size = n) :
    related (classes.map EquivalenceClass.reversed) = related classes := by
  funext i j
  rw [related, related, List.getElem?_map, List.getElem?_map]
  cases hk : classes[i]? with
  | none => rfl
  | some k =>
      cases hl : classes[j]? with
      | none => rfl
      | some l =>
          have hentails := Bits.entails_reverse (hsize k (List.mem_of_getElem? hk))
            (hsize l (List.mem_of_getElem? hl))
          exact congrArg (i != j && ·) hentails

/-! ### Tables and their orders -/

namespace Table

/-- Tables with the same columns, but with the rows in opposite orders. -/
structure Mirrors (t u : Table) : Prop where
  rows : u.rows = t.rows
  columns : u.columns = t.columns.map Column.reversed
  /-- Names, headers and kinds are the same. -/
  headings : u.columns.map Column.heading = t.columns.map Column.heading
  row : ∀ i < t.rows, ∃ values, u.row (i : ℕ) = .ok values ∧
    t.row ((t.rows - 1 - i : ℕ) : ℤ) = .ok values

lemma mirrors_of_columns {t u : Table} (hsize : ∀ c ∈ t.columns, c.bits.size = t.rows)
    (hrows : u.rows = t.rows) (hcolumns : u.columns = t.columns.map Column.reversed) :
    t.Mirrors u := by
  refine ⟨hrows, hcolumns, ?_, fun i hi => ⟨t.valuesAt (t.rows - 1 - i), ?_, ?_⟩⟩
  · rw [hcolumns, Column.map_heading_reversed]
  · have hlong : ∀ c ∈ u.columns, i < c.bits.size := by
      intro c hc
      rw [hcolumns] at hc
      obtain ⟨d, hd, rfl⟩ := List.mem_map.mp hc
      rw [Column.reversed, Array.size_reverse, hsize d hd]
      exact hi
    rw [row_eq hlong, valuesAt, valuesAt, hcolumns, List.map_map]
    refine congrArg Except.ok (List.map_congr_left fun c hc => ?_)
    exact congrArg (Option.getD · false) (Bits.getElem?_reverse (hsize c hc) hi)
  · exact row_eq fun c hc => by rw [hsize c hc]; omega

variable {t u : Table}

lemma Mirrors.tautologies (h : t.Mirrors u) :
    u.tautologies = t.tautologies.map Column.reversed := by
  rw [Table.tautologies, h.columns, List.filter_map]
  exact congrArg _ (List.filter_congr fun c _ => c.isTautology_reversed)

lemma Mirrors.contradictions (h : t.Mirrors u) :
    u.contradictions = t.contradictions.map Column.reversed := by
  rw [Table.contradictions, h.columns, List.filter_map]
  exact congrArg _ (List.filter_congr fun c _ => c.isContradiction_reversed)

end Table

namespace Entailment

/-- Orders of tables with the rows in opposite orders: they have the same nodes, with reversed
vectors, and the same edges. -/
structure Mirrors [Digraph.Library ℕ] (e f : Entailment) : Prop where
  table : e.table.Mirrors f.table
  classes : f.classes = e.classes.map EquivalenceClass.reversed
  /-- Every class has the same members under the same label. -/
  members : (f.classes.map fun k => k.members.map Column.heading) =
    e.classes.map fun k => k.members.map Column.heading
  labels : f.classes.map EquivalenceClass.label = e.classes.map EquivalenceClass.label
  /-- Nodes and edges are the same, and so are the places in layers. -/
  graph : f.graph = e.graph
  places : ∃ places, e.graph.points? .layers = some places ∧ f.graph.points? .layers = some places
  tautologies : f.table.tautologies = e.table.tautologies.map Column.reversed
  contradictions : f.table.contradictions = e.table.contradictions.map Column.reversed

variable [Digraph.Library ℕ] {e f : Entailment} {t u : Table} {n : ℕ}

lemma mirrors_of_classes (htable : e.table.Mirrors f.table)
    (hclasses : f.classes = e.classes.map EquivalenceClass.reversed) (hgraph : f.graph = e.graph)
    (hplaces : ∃ places, e.graph.points? .layers = some places) : e.Mirrors f := by
  obtain ⟨places, hplaces⟩ := hplaces
  refine ⟨htable, hclasses, ?_, ?_, hgraph, ⟨places, hplaces, hgraph ▸ hplaces⟩,
    htable.tautologies, htable.contradictions⟩
  · rw [hclasses, List.map_map]
    exact List.map_congr_left fun k _ => Column.map_heading_reversed k.members
  · rw [hclasses, List.map_map]
    exact List.map_congr_left fun k _ => k.label_reversed

variable [Digraph.LawfulLibrary ℕ]

/-- A graph without a cycle has places in layers. -/
lemma exists_places {g : Digraph ℕ} (hsound : g.IsSound) (hacyclic : g.Acyclic) :
    ∃ places, g.points? .layers = some places := by
  obtain ⟨order, horder, -⟩ := Digraph.LawfulLibrary.exists_order hsound hacyclic
  exact ⟨_, by rw [Digraph.points?, horder, Option.map_some]⟩

/-- The orders of tables with the rows in opposite orders. -/
lemma mirrors_ofTable (h : t.Mirrors u) (hsize : ∀ c ∈ t.columns, c.bits.size = n) :
    (ofTable t).Mirrors (ofTable u) := by
  have hposet := isPoset_ofTable hsize
  have hclasses : (ofTable u).classes = (ofTable t).classes.map EquivalenceClass.reversed := by
    rw [ofTable, h.columns]
    exact EquivalenceClass.ofColumns_reversed t.columns
  have hgraph : (ofTable u).graph = (ofTable t).graph := by
    show Digraph.ofRelation (List.range (ofTable u).classes.length) (related (ofTable u).classes) =
      _
    rw [hclasses, List.length_map, related_reversed fun k hk => size_of_mem_classes hsize hk]
    rfl
  exact mirrors_of_classes h hclasses hgraph
    (exists_places hposet.isSound hposet.acyclic)

/-- The diagrams of orders that mirror each other do so, too. -/
lemma Mirrors.exists_reduction (h : e.Mirrors f) (he : e.IsPoset) :
    ∃ r s, e.reduction = .ok r ∧ f.reduction = .ok s ∧ r.Mirrors s := by
  obtain ⟨r, hr, hdiagram⟩ := he.exists_diagram
  obtain ⟨hsound, hacyclic⟩ := hdiagram.acyclic he
  have hs : f.reduction = .ok { f with graph := r.graph } := by
    rw [reduction] at hr ⊢
    rw [h.graph]
    cases hgraph : Digraph.Library.reduce? e.graph with
    | none => rw [hgraph] at hr; cases hr
    | some graph => rw [hgraph] at hr; cases hr; rfl
  refine ⟨r, _, hr, hs, mirrors_of_classes ?_ ?_ rfl (exists_places hsound hacyclic)⟩
  · rw [hdiagram.table]
    exact h.table
  · rw [hdiagram.classes]
    exact h.classes

end Entailment

/-- **The order of the rows changes nothing else.**  A text is rejected in the same way, or its
table has the same columns with the rows in the opposite order.  The entailments between them
and their diagrams have the same nodes, members, labels, edges and places, whichever library
finds the diagrams and the places. -/
theorem Table.ofText_reversed [Digraph.Library ℕ] [Digraph.LawfulLibrary ℕ] (numeric : Bool)
    (text : String) :
    (∃ r, ofText numeric true text = .error (.rejected r) ∧
      ofText numeric false text = .error (.rejected r)) ∨
    ∃ t u, ofText numeric true text = .ok t ∧ ofText numeric false text = .ok u ∧ t.Mirrors u ∧
      (Entailment.ofTable t).Mirrors (Entailment.ofTable u) ∧
      ∃ r s, (Entailment.ofTable t).reduction = .ok r ∧
        (Entailment.ofTable u).reduction = .ok s ∧ r.Mirrors s := by
  cases hr : Request.ofText numeric text with
  | error r => exact .inl ⟨r, ofText_of_error hr true, ofText_of_error hr false⟩
  | ok r =>
      obtain ⟨hparse, hps, -⟩ := Request.table_of_ok hr true
      obtain ⟨e, he, htables⟩ := exists_evaluation hparse hps
      have hsize := size_of_ok (htables true)
      have hmirrors : (e.table numeric true).Mirrors (e.table numeric false) := by
        refine mirrors_of_columns hsize rfl ?_
        rw [Evaluation.columns_table, Evaluation.columns_table, List.map_append, List.map_map,
          List.map_map]
        rfl
      have horders := Entailment.mirrors_ofTable hmirrors hsize
      exact .inr ⟨_, _, htables true, htables false, hmirrors, horders,
        horders.exists_reduction (Entailment.isPoset_ofTable hsize)⟩

/-- A table with two vectors below a third one, with the library that is given here. -/
theorem Table.ofText_reversed_pair :
    (∃ r, ofText true true "p, q, p v q" = .error (.rejected r) ∧
      ofText true false "p, q, p v q" = .error (.rejected r)) ∨
    ∃ t u, ofText true true "p, q, p v q" = .ok t ∧ ofText true false "p, q, p v q" = .ok u ∧
      t.Mirrors u ∧ (Entailment.ofTable t).Mirrors (Entailment.ofTable u) ∧
      ∃ r s, (Entailment.ofTable t).reduction = .ok r ∧
        (Entailment.ofTable u).reduction = .ok s ∧ r.Mirrors s :=
  Table.ofText_reversed true "p, q, p v q"

end Propositional
