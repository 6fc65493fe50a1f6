/-
The diagram of the entailments between the columns of a table.

* `Table.IsRectangular`: all vectors have one length.
* `EquivalenceClass.ofColumns_eq`: one class for each vector, in the order in which the
  vectors appear; `EquivalenceClass.Partition` is what this means for the columns.
* `Bits.StrictlyEntails`: another vector is true wherever the first is;
  `Entailment.adj_iff` says that the edges between the classes are these pairs.
* `Entailment.IsPoset`, `Entailment.IsDiagram`: the edges make a strict order, and its
  diagram has those of them between which there is no other class.
* `Entailment.ofTable_poset`: so it is for every rectangular table.
-/
import Propositional.Proofs.Consequence
import Propositional.Proofs.Digraph.Reduction

namespace Propositional

/-! ### Vectors of one length -/

/-- All vectors of a table have the same length.  In a table that is built by hand it need
not be the number of rows. -/
def Table.IsRectangular (t : Table) : Prop := ∃ n, ∀ c ∈ t.columns, c.bits.size = n

/-! ### One class for each vector -/

namespace EquivalenceClass

variable {columns : List Column} {c : Column} {b : Bits}

/-- The class of the columns with a vector. -/
def ofBits (columns : List Column) (b : Bits) : EquivalenceClass :=
  ⟨b, columns.filter fun c => c.bits = b⟩

lemma ofBits_append_self (columns : List Column) (c : Column) :
    ofBits (columns ++ [c]) c.bits = ⟨c.bits, (ofBits columns c.bits).members ++ [c]⟩ := by
  simp [ofBits]

lemma ofBits_append_of_ne (columns : List Column) (h : b ≠ c.bits) :
    ofBits (columns ++ [c]) b = ofBits columns b := by
  simp [ofBits, Ne.symm h]

/-- A column that is added is found in the class of its vector. -/
lemma insert_map_ofBits {bs : List Bits} (hnodup : bs.Nodup)
    (hnew : c.bits ∉ bs → (ofBits columns c.bits).members = []) :
    insert c (bs.map (ofBits columns)) =
      (if c.bits ∈ bs then bs else bs ++ [c.bits]).map (ofBits (columns ++ [c])) := by
  induction bs with
  | nil =>
      rw [if_neg List.not_mem_nil, List.nil_append, List.map_singleton, ofBits_append_self,
        hnew List.not_mem_nil]
      rfl
  | cons b bs ih =>
      rw [List.nodup_cons] at hnodup
      rw [List.map_cons, insert, show (ofBits columns b).bits = b from rfl]
      by_cases hb : b = c.bits
      · -- the other classes have other vectors
        subst hb
        have hrest : bs.map (ofBits (columns ++ [c])) = bs.map (ofBits columns) := by
          refine List.map_congr_left fun b' hb' => ofBits_append_of_ne columns ?_
          rintro rfl
          exact hnodup.1 hb'
        rw [if_pos rfl, if_pos List.mem_cons_self, List.map_cons, ofBits_append_self, hrest]
      · have hmem : c.bits ∈ b :: bs ↔ c.bits ∈ bs := by
          rw [List.mem_cons, or_iff_right (Ne.symm hb)]
        rw [if_neg hb, ih hnodup.2 fun h => hnew (mt hmem.mp h)]
        by_cases hbs : c.bits ∈ bs
        · rw [if_pos hbs, if_pos (hmem.mpr hbs), List.map_cons, ofBits_append_of_ne columns hb]
        · rw [if_neg hbs, if_neg (mt hmem.mp hbs), List.cons_append, List.map_cons,
            ofBits_append_of_ne columns hb]

lemma eraseDups_append_singleton {α : Type} [BEq α] [LawfulBEq α] (l : List α) (a : α) :
    (l ++ [a]).eraseDups = if a ∈ l.eraseDups then l.eraseDups else l.eraseDups ++ [a] := by
  rw [List.eraseDups_append]
  by_cases h : a ∈ l
  · rw [if_pos (List.mem_eraseDups.mpr h)]
    simp [List.removeAll, h]
  · rw [if_neg (mt List.mem_eraseDups.mp h)]
    simp [List.removeAll, List.eraseDups_cons, h]

/-- The classes of some columns are those of their vectors, as these appear. -/
lemma ofColumns_eq (columns : List Column) :
    ofColumns columns = (columns.map Column.bits).eraseDups.map (ofBits columns) := by
  induction columns using List.reverseRecOn with
  | nil => rfl
  | append_singleton columns c ih =>
      have hbits : (ofColumns columns).map bits = (columns.map Column.bits).eraseDups := by
        rw [ih, List.map_map]
        exact List.map_id _
      have hnodup : (columns.map Column.bits).eraseDups.Nodup := by
        rw [← hbits]
        exact (groups_ofColumns columns).nodup
      have hnew : c.bits ∉ (columns.map Column.bits).eraseDups →
          (ofBits columns c.bits).members = [] := by
        rw [List.mem_eraseDups, List.mem_map, not_exists]
        intro h
        refine List.filter_eq_nil_iff.mpr fun d hd heq => h d ⟨hd, ?_⟩
        exact of_decide_eq_true heq
      have hstep : ofColumns (columns ++ [c]) = insert c (ofColumns columns) := by
        rw [ofColumns, ofColumns, List.foldl_append]
        rfl
      rw [hstep, ih, insert_map_ofBits hnodup hnew, List.map_append, List.map_singleton,
        eraseDups_append_singleton]

lemma map_bits_ofColumns (columns : List Column) :
    (ofColumns columns).map bits = (columns.map Column.bits).eraseDups := by
  rw [ofColumns_eq, List.map_map]
  exact List.map_id _

/-- Different classes have different vectors. -/
lemma bits_eq_iff {i j : ℕ} {k l : EquivalenceClass} (hk : (ofColumns columns)[i]? = some k)
    (hl : (ofColumns columns)[j]? = some l) : k.bits = l.bits ↔ i = j := by
  have hi : i < ((ofColumns columns).map bits).length := by
    rw [List.length_map]
    exact (List.getElem?_eq_some_iff.mp hk).1
  rw [← List.getElem?_inj hi (groups_ofColumns columns).nodup, List.getElem?_map,
    List.getElem?_map, hk, hl, Option.map_some, Option.map_some, Option.some_inj]

/-- Columns that are divided into classes by their vectors. -/
structure Partition (columns : List Column) (classes : List EquivalenceClass) : Prop where
  /-- There is one class for each vector, and they are in the order of first appearance. -/
  vectors : classes.map bits = (columns.map Column.bits).eraseDups
  /-- The members of a class are the columns with its vector, in the order of the columns. -/
  members : ∀ k ∈ classes, k.members = columns.filter fun c => c.bits = k.bits
  /-- Every column is a member of one class. -/
  unique : ∀ c ∈ columns, ∃! i : ℕ, ∃ k : EquivalenceClass, classes[i]? = some k ∧ c ∈ k.members

/-- The classes of some columns divide them. -/
lemma partition_ofColumns (columns : List Column) : Partition columns (ofColumns columns) := by
  have hgroups := groups_ofColumns columns
  refine ⟨map_bits_ofColumns columns, fun k hk => ?_, fun c hc => ?_⟩
  · rw [ofColumns_eq] at hk
    obtain ⟨b, -, rfl⟩ := List.mem_map.mp hk
    rfl
  · obtain ⟨k, hk, -, hck⟩ := (hgroups.mem c.bits c).mpr ⟨hc, rfl⟩
    obtain ⟨i, hi⟩ := List.mem_iff_getElem?.mp hk
    refine ⟨i, ⟨k, hi, hck⟩, ?_⟩
    rintro j ⟨l, hj, hcl⟩
    rw [← bits_eq_iff hj hi, ← (hgroups.of_mem (List.mem_of_getElem? hj) hcl).2,
      (hgroups.of_mem hk hck).2]

end EquivalenceClass

/-! ### Strict entailment -/

/-- A vector entails another one that differs from it. -/
def Bits.StrictlyEntails (a b : Bits) : Prop :=
  a ≠ b ∧ ∀ i : ℕ, a[i]? = some true → b[i]? = some true

namespace Bits

variable {a b c : Bits} {n : ℕ}

lemma eq_of_entails (ha : a.size = n) (hb : b.size = n)
    (hab : ∀ i : ℕ, a[i]? = some true → b[i]? = some true)
    (hba : ∀ i : ℕ, b[i]? = some true → a[i]? = some true) : a = b := by
  refine Array.ext (ha.trans hb.symm) fun i hi hj => ?_
  have hiff : a[i] = true ↔ b[i] = true := by
    have := hab i
    have := hba i
    grind
  exact Bool.eq_iff_iff.mpr hiff

lemma StrictlyEntails.trans (ha : a.size = n) (hb : b.size = n) (hab : a.StrictlyEntails b)
    (hbc : b.StrictlyEntails c) : a.StrictlyEntails c := by
  refine ⟨?_, fun i hi => hbc.2 i (hab.2 i hi)⟩
  rintro rfl
  exact hab.1 (eq_of_entails ha hb hab.2 hbc.2)

/-- The check of a vector against a different one is that of strict entailment. -/
lemma strictlyEntails_iff (ha : a.size = n) (hb : b.size = n) :
    a.StrictlyEntails b ↔ a ≠ b ∧ Bits.entails a b = true := by
  rw [StrictlyEntails, entails_iff ha hb]
  refine and_congr_right fun _ => ⟨fun h i _ => h i, fun h i htrue => h i ?_ htrue⟩
  exact ha ▸ (Array.getElem?_eq_some_iff.mp htrue).1

end Bits

namespace Entailment

variable {t : Table} {e r : Entailment} {i j k n : ℕ}

lemma size_of_mem_classes (hsize : ∀ c ∈ t.columns, c.bits.size = n) {k : EquivalenceClass}
    (hk : k ∈ (ofTable t).classes) : k.bits.size = n := by
  have hgroups := EquivalenceClass.groups_ofColumns t.columns
  obtain ⟨c, hc⟩ := List.exists_mem_of_ne_nil _ (hgroups.ne_nil k hk)
  obtain ⟨hcolumn, hbits⟩ := hgroups.of_mem hk hc
  rw [← hbits, hsize c hcolumn]

/-- There is an edge from each class to those that it strictly entails. -/
lemma adj_iff (hsize : ∀ c ∈ t.columns, c.bits.size = n) :
    (ofTable t).graph.Adj i j ↔ ∃ k l, (ofTable t).classes[i]? = some k ∧
      (ofTable t).classes[j]? = some l ∧ k.bits.StrictlyEntails l.bits := by
  rw [Digraph.Adj, mem_edges_iff, ← exists_and_left]
  refine exists_congr fun k => ?_
  rw [← exists_and_left]
  refine exists_congr fun l => ?_
  rw [and_left_comm, and_congr_right_iff]
  intro hk
  rw [and_left_comm, and_congr_right_iff]
  intro hl
  rw [Bits.strictlyEntails_iff (size_of_mem_classes hsize (List.mem_of_getElem? hk))
    (size_of_mem_classes hsize (List.mem_of_getElem? hl)), ne_eq, ne_eq,
    EquivalenceClass.bits_eq_iff hk hl]

/-! ### The order and its diagram -/

/-- Classes that are ordered by strict entailment. -/
structure IsPoset (e : Entailment) : Prop where
  nodes : e.graph.nodes = List.range e.classes.length
  nodup : e.graph.edges.Nodup
  edges : ∀ i j, e.graph.Adj i j ↔ ∃ k l, e.classes[i]? = some k ∧ e.classes[j]? = some l ∧
    k.bits.StrictlyEntails l.bits
  irrefl : ∀ i, ¬ e.graph.Adj i i
  asymm : ∀ i j, e.graph.Adj i j → ¬ e.graph.Adj j i
  trans : ∀ i j k, e.graph.Adj i j → e.graph.Adj j k → e.graph.Adj i k
  acyclic : e.graph.Acyclic

lemma IsPoset.reaches_iff (h : e.IsPoset) : e.graph.Reaches i j ↔ e.graph.Adj i j :=
  Digraph.reaches_iff_of_trans h.trans

lemma IsPoset.isSound (h : e.IsPoset) : e.graph.IsSound := by
  refine ⟨h.nodes ▸ List.nodup_range, fun i j hij => ?_⟩
  obtain ⟨k, l, hk, hl, -⟩ := (h.edges i j).mp hij
  rw [h.nodes, List.mem_range, List.mem_range]
  exact ⟨(List.getElem?_eq_some_iff.mp hk).1, (List.getElem?_eq_some_iff.mp hl).1⟩

/-- The classes of a rectangular table are ordered. -/
lemma isPoset_ofTable (hsize : ∀ c ∈ t.columns, c.bits.size = n) : (ofTable t).IsPoset := by
  have hedges : ∀ i j, (ofTable t).graph.Adj i j ↔ ∃ k l, (ofTable t).classes[i]? = some k ∧
      (ofTable t).classes[j]? = some l ∧ k.bits.StrictlyEntails l.bits :=
    fun i j => adj_iff hsize
  have hirrefl : ∀ i, ¬ (ofTable t).graph.Adj i i :=
    fun i h => (mem_edges_iff.mp h).1 rfl
  have htrans : ∀ i j k, (ofTable t).graph.Adj i j → (ofTable t).graph.Adj j k →
      (ofTable t).graph.Adj i k := by
    intro i j k hij hjk
    obtain ⟨a, b, ha, hb, hab⟩ := (hedges i j).mp hij
    obtain ⟨b', c, hb', hc, hbc⟩ := (hedges j k).mp hjk
    obtain rfl : b = b' := Option.some.inj (hb.symm.trans hb')
    have hasize := size_of_mem_classes hsize (List.mem_of_getElem? ha)
    have hbsize := size_of_mem_classes hsize (List.mem_of_getElem? hb)
    exact (hedges i k).mpr ⟨a, c, ha, hc, hab.trans hasize hbsize hbc⟩
  refine ⟨rfl, Digraph.nodup_edges_ofRelation List.nodup_range, hedges, hirrefl,
    fun i j hij hji => hirrefl i (htrans i j i hij hji), htrans, fun i hpath => hirrefl i ?_⟩
  -- a cycle would be an edge from a class to itself
  exact (Digraph.reaches_iff_of_trans htrans).mp hpath

/-- The diagram of an order has the same classes, an edge between two of them where no other
class lies between, and the same paths. -/
structure IsDiagram (e r : Entailment) : Prop where
  table : r.table = e.table
  classes : r.classes = e.classes
  nodes : r.graph.nodes = e.graph.nodes
  nodup : r.graph.edges.Nodup
  covers : ∀ i j, r.graph.Adj i j ↔ e.graph.Adj i j ∧ ¬ ∃ k, e.graph.Adj i k ∧ e.graph.Adj k j
  reaches : ∀ i j, r.graph.Reaches i j ↔ e.graph.Adj i j
  /-- It is a reduction of the order, and any other has the same edges. -/
  reduction : e.graph.IsReduction r.graph
  unique : ∀ graph, e.graph.IsReduction graph → ∀ i j, graph.Adj i j ↔ r.graph.Adj i j

/-- Every order has a diagram. -/
lemma IsPoset.exists_diagram [Digraph.Library ℕ] [Digraph.LawfulLibrary ℕ] (h : e.IsPoset) :
    ∃ r, e.reduction = .ok r ∧ e.IsDiagram r := by
  obtain ⟨graph, hgraph, hreduction, hnodup⟩ :=
    Digraph.LawfulLibrary.exists_reduction h.isSound h.acyclic
  refine ⟨{ e with graph }, by rw [reduction, hgraph], rfl, rfl, hreduction.nodes,
    hnodup h.nodup, fun i j => ?_, fun i j => ?_, hreduction,
    fun graph' h' i j => h'.adj_iff hreduction⟩
  · rw [hreduction.adj_iff_detour h.isSound h.acyclic]
    simp only [h.reaches_iff]
  · rw [hreduction.reaches, h.reaches_iff]

/-- **Every rectangular table has its diagram of entailments.** The vectors of the table of
a text run over its rows.  Wherever the vectors of a table have one length, the classes
divide the columns, strict entailment orders them, and the reduction of this order is found:
it is the diagram in which the edges lead from each class to the next ones. -/
theorem ofTable_poset :
    (∀ numeric ordered text t, Table.ofText numeric ordered text = .ok t → t.IsRectangular) ∧
      ∀ t : Table, t.IsRectangular →
        EquivalenceClass.Partition t.columns (ofTable t).classes ∧ (ofTable t).IsPoset ∧
          ∃ r, (ofTable t).reduction = .ok r ∧ (ofTable t).IsDiagram r := by
  refine ⟨fun numeric ordered text t h => ⟨t.rows, Table.size_of_ok h⟩, ?_⟩
  rintro t ⟨n, hsize⟩
  have hposet := isPoset_ofTable hsize
  exact ⟨EquivalenceClass.partition_ofColumns t.columns, hposet, hposet.exists_diagram⟩

/-- A table of a text, and a table by hand with a column that is there twice. -/
theorem ofTable_poset_pair :
    (∃ t, Table.ofText true true "p, q, p v q" = .ok t ∧ t.IsRectangular) ∧
      ∃ t : Table, t = ⟨[⟨"a", "a", #[true, false], .simple⟩, ⟨"b", "b", #[true, true], .simple⟩,
          ⟨"a", "a", #[true, false], .simple⟩], 2, true, true⟩ ∧ t.IsRectangular ∧
        EquivalenceClass.Partition t.columns (ofTable t).classes ∧ (ofTable t).IsPoset ∧
          ∃ r, (ofTable t).reduction = .ok r ∧ (ofTable t).IsDiagram r :=
  have h : Table.ofText true true "p, q, p v q" =
      .ok ⟨[⟨"p", "p", #[false, false, true, true], .simple⟩,
        ⟨"q", "q", #[false, true, false, true], .simple⟩,
        ⟨"$p0", "p ∨ q", #[false, true, true, true], .anonymous⟩], 4, true, true⟩ := by
    decide +kernel
  have hrect : Table.IsRectangular ⟨[⟨"a", "a", #[true, false], .simple⟩,
      ⟨"b", "b", #[true, true], .simple⟩, ⟨"a", "a", #[true, false], .simple⟩], 2, true, true⟩ :=
    ⟨2, by decide⟩
  ⟨⟨_, h, ofTable_poset.1 _ _ _ _ h⟩, _, rfl, hrect, ofTable_poset.2 _ hrect⟩

/-- Where a vector ends early only the rows before that count, and each of two classes
entails the other. -/
example : (ofTable ⟨[⟨"a", "a", #[true], .simple⟩, ⟨"b", "b", #[true, false], .simple⟩], 2,
    true, true⟩).reduction = .error .cyclic := by
  decide +kernel

end Entailment

end Propositional
