/-
The entailments of a table are those of logic.

* `EquivalenceClass.Groups`: the columns that share a vector, once each; `Groups.insert`
  adds a column, and `EquivalenceClass.groups_ofColumns` all of them.
* `valuation`: truth values for the atoms, where a constant has its own.
* `Evaluation.Shows`: a row in which the simple propositions have the values of a
  valuation; `Evaluation.IsOf.forall_rows_iff`: what holds in every row holds for every
  valuation.
* `Entailment.IsLogical`, `Entailment.ofTable_means`: the classes, the edges, the
  tautologies and the contradictions of a table in terms of all valuations.
-/
import Propositional.Entailment
import Propositional.Proofs.Columns

namespace Propositional

/-! ### Columns by their vectors -/

namespace EquivalenceClass

/-- Classes that have the given columns for members, those with the same vector
together. -/
structure Groups (columns : List Column) (classes : List EquivalenceClass) : Prop where
  nodup : (classes.map bits).Nodup
  mem : ∀ b c, (∃ k ∈ classes, k.bits = b ∧ c ∈ k.members) ↔ c ∈ columns ∧ c.bits = b
  ne_nil : ∀ k ∈ classes, k.members ≠ []

variable {columns : List Column} {classes : List EquivalenceClass} {c d : Column}

/-- A new class is begun only for a new vector. -/
lemma map_bits_insert (c : Column) (classes : List EquivalenceClass) :
    (insert c classes).map bits =
      if c.bits ∈ classes.map bits then classes.map bits else classes.map bits ++ [c.bits] := by
  induction classes with
  | nil => rfl
  | cons k classes ih =>
      rw [insert, List.map_cons]
      by_cases hk : k.bits = c.bits
      · rw [if_pos hk, List.map_cons, hk, if_pos List.mem_cons_self]
      · rw [if_neg hk, List.map_cons, ih]
        by_cases hmem : c.bits ∈ classes.map bits
        · rw [if_pos hmem, if_pos (List.mem_cons_of_mem _ hmem)]
        · have hnot : c.bits ∉ k.bits :: classes.map bits := by
            rw [List.mem_cons, not_or]
            exact ⟨Ne.symm hk, hmem⟩
          rw [if_neg hmem, if_neg hnot, List.cons_append]

/-- The column that is added becomes a member of the class with its vector. -/
lemma mem_insert {b : Bits} :
    (∃ k ∈ insert c classes, k.bits = b ∧ d ∈ k.members) ↔
      (∃ k ∈ classes, k.bits = b ∧ d ∈ k.members) ∨ (d = c ∧ c.bits = b) := by
  induction classes with
  | nil =>
      rw [insert]
      simp [and_comm]
  | cons k classes ih =>
      rw [insert]
      by_cases hk : k.bits = c.bits
      · rw [if_pos hk]
        simp only [List.exists_mem_cons_iff, List.mem_append, List.mem_singleton, ← hk]
        rw [and_or_left, or_right_comm, and_comm (a := d = c)]
      · rw [if_neg hk]
        simp only [List.exists_mem_cons_iff, ih, or_assoc]

lemma ne_nil_of_mem_insert (h : ∀ k ∈ classes, k.members ≠ []) :
    ∀ k ∈ insert c classes, k.members ≠ [] := by
  induction classes with
  | nil =>
      rw [insert, List.forall_mem_singleton]
      exact List.cons_ne_nil _ _
  | cons k classes ih =>
      rw [List.forall_mem_cons] at h
      rw [insert]
      split
      · rw [List.forall_mem_cons]
        exact ⟨by simp, h.2⟩
      · rw [List.forall_mem_cons]
        exact ⟨h.1, ih h.2⟩

/-- A column that is added is grouped with the others. -/
lemma Groups.insert (h : Groups columns classes) (c : Column) :
    Groups (columns ++ [c]) (EquivalenceClass.insert c classes) := by
  refine ⟨?_, fun b d => ?_, ne_nil_of_mem_insert h.ne_nil⟩
  · rw [map_bits_insert]
    split
    · exact h.nodup
    · next hmem =>
        rw [← List.concat_eq_append]
        exact h.nodup.concat hmem
  · rw [mem_insert, h.mem, List.mem_append, List.mem_singleton, or_and_right]
    refine or_congr_right ⟨?_, ?_⟩
    · rintro ⟨rfl, hb⟩
      exact ⟨rfl, hb⟩
    · rintro ⟨rfl, hb⟩
      exact ⟨rfl, hb⟩

lemma groups_ofColumns (columns : List Column) : Groups columns (ofColumns columns) := by
  induction columns using List.reverseRecOn with
  | nil => exact ⟨List.nodup_nil, by simp [ofColumns], by simp [ofColumns]⟩
  | append_singleton columns c ih =>
      have hstep : ofColumns (columns ++ [c]) = EquivalenceClass.insert c (ofColumns columns) := by
        rw [ofColumns, ofColumns, List.foldl_append]
        rfl
      rw [hstep]
      exact ih.insert c

lemma Groups.mem_and_mem_iff (h : Groups columns classes) (hc : c ∈ columns) (hd : d ∈ columns) :
    (∃ k ∈ classes, c ∈ k.members ∧ d ∈ k.members) ↔ c.bits = d.bits := by
  constructor
  · rintro ⟨k, hk, hck, hdk⟩
    rw [((h.mem k.bits c).mp ⟨k, hk, rfl, hck⟩).2, ((h.mem k.bits d).mp ⟨k, hk, rfl, hdk⟩).2]
  · intro heq
    obtain ⟨k, hk, hbits, hck⟩ := (h.mem c.bits c).mpr ⟨hc, rfl⟩
    obtain ⟨l, hl, hbits', hdl⟩ := (h.mem d.bits d).mpr ⟨hd, rfl⟩
    obtain rfl : k = l :=
      List.inj_on_of_nodup_map h.nodup hk hl (hbits.trans (heq.trans hbits'.symm))
    exact ⟨k, hk, hck, hdl⟩

lemma Groups.of_mem (h : Groups columns classes) {k : EquivalenceClass} (hk : k ∈ classes)
    (hc : c ∈ k.members) : c ∈ columns ∧ c.bits = k.bits :=
  (h.mem k.bits c).mp ⟨k, hk, rfl, hc⟩

end EquivalenceClass

/-! ### Vectors row by row -/

namespace Bits

variable {a b : Bits} {rows : ℕ}

/-- A vector entails another one if that is true in every row where it is. -/
lemma entails_iff (ha : a.size = rows) (hb : b.size = rows) :
    Bits.entails a b = true ↔ ∀ i < rows, a[i]? = some true → b[i]? = some true := by
  rw [Bits.entails, Array.all_eq_true]
  constructor
  · intro h i hi htrue
    have hrow := h i (by simp [ha, hb, hi])
    rw [Array.getElem_zip] at hrow
    rw [Array.getElem?_eq_getElem (ha ▸ hi), Option.some_inj] at htrue
    rw [Array.getElem?_eq_getElem (hb ▸ hi), Option.some_inj]
    simpa [htrue] using hrow
  · intro h i hi
    have hlt : i < rows := by
      rw [Array.size_zip, ha, hb, min_self] at hi
      exact hi
    have hrow := h i hlt
    rw [Array.getElem?_eq_getElem (ha ▸ hlt), Array.getElem?_eq_getElem (hb ▸ hlt),
      Option.some_inj, Option.some_inj] at hrow
    rw [Array.getElem_zip]
    have hi' : i < a.size := ha ▸ hlt
    cases htrue : a[i] with
    | false => simp
    | true => simp [hrow htrue]

/-- Vectors with the same truth values are equal. -/
lemma eq_iff (ha : a.size = rows) (hb : b.size = rows) :
    a = b ↔ ∀ i < rows, ∀ v, a[i]? = some v ↔ b[i]? = some v := by
  refine ⟨fun h i _ v => by rw [h], fun h => ?_⟩
  refine Array.ext (ha.trans hb.symm) fun i hi hj => ?_
  have hrow := h i (ha ▸ hi) b[i]
  rw [Array.getElem?_eq_getElem hi, Array.getElem?_eq_getElem hj, Option.some_inj] at hrow
  exact hrow.mpr rfl

lemma forall_getElem_iff (ha : a.size = rows) {v : Bool} :
    (∀ i (hi : i < a.size), a[i] = v) ↔ ∀ i < rows, a[i]? = some v := by
  constructor
  · intro h i hi
    rw [Array.getElem?_eq_getElem (ha ▸ hi), h i (ha ▸ hi)]
  · intro h i hi
    have hrow := h i (ha ▸ hi)
    rwa [Array.getElem?_eq_getElem hi, Option.some_inj] at hrow

end Bits

lemma Column.isTautology_iff {c : Column} {rows : ℕ} (hc : c.bits.size = rows) :
    c.isTautology = true ↔ ∀ i < rows, c.bits[i]? = some true := by
  rw [isTautology, Array.all_eq_true, ← Bits.forall_getElem_iff hc]

lemma Column.isContradiction_iff {c : Column} {rows : ℕ} (hc : c.bits.size = rows) :
    c.isContradiction = true ↔ ∀ i < rows, c.bits[i]? = some false := by
  rw [isContradiction, Bool.not_eq_true', Array.any_eq_false, ← Bits.forall_getElem_iff hc]
  simp only [Bool.not_eq_true]

/-- A class entails another one if in every row where a member of it is true the members
of the other are. -/
lemma EquivalenceClass.Groups.entails_iff {columns : List Column} {classes : List EquivalenceClass}
    {rows : ℕ} (h : Groups columns classes) (hsize : ∀ c ∈ columns, c.bits.size = rows)
    {k l : EquivalenceClass} (hk : k ∈ classes) (hl : l ∈ classes) :
    Bits.entails k.bits l.bits = true ↔
      ∀ i < rows, (∃ c ∈ k.members, c.bits[i]? = some true) →
        ∀ d ∈ l.members, d.bits[i]? = some true := by
  have hclass : ∀ k ∈ classes, k.bits.size = rows ∧ ∃ c, c ∈ k.members := by
    intro k hk
    obtain ⟨c, hc⟩ := List.exists_mem_of_ne_nil _ (h.ne_nil k hk)
    obtain ⟨hcolumn, hbits⟩ := h.of_mem hk hc
    exact ⟨hbits ▸ hsize c hcolumn, c, hc⟩
  obtain ⟨hksize, c, hc⟩ := hclass k hk
  obtain ⟨hlsize, d, hd⟩ := hclass l hl
  rw [Bits.entails_iff hksize hlsize]
  constructor
  · rintro hentails i hi ⟨c', hc', htrue⟩ d' hd'
    rw [(h.of_mem hk hc').2] at htrue
    rw [(h.of_mem hl hd').2]
    exact hentails i hi htrue
  · intro hentails i hi htrue
    rw [← (h.of_mem hk hc).2] at htrue
    rw [← (h.of_mem hl hd).2]
    exact hentails i hi ⟨c, hc, htrue⟩ d hd

/-! ### Rows and valuations -/

/-- Truth values for the atoms: a constant has its own, and any other atom the given
one. -/
def valuation (numeric : Bool) (w : String → Bool) (n : String) : Option Bool :=
  some ((constant? numeric n).getD (w n))

/-- Formulas of a request mean the same for the same values of its simple
propositions. -/
lemma Formula.means_congr {ps : List Proposition} {v w : String → Option Bool} {f : Formula}
    (hvalue : ∀ n ∈ Proposition.simple ps, v n = w n) (hf : f.atoms ⊆ Proposition.atoms ps)
    (b : Bool) : f.Means ps v b ↔ f.Means ps w b :=
  ⟨fun h => h.mono (List.Subset.refl ps) (fun _ _ => id) hvalue hf,
    fun h => h.mono (List.Subset.refl ps) (fun _ _ => id) (fun n hn => (hvalue n hn).symm) hf⟩

namespace Evaluation

variable {numeric ordered : Bool} {ps : List Proposition} {e : Evaluation} {w : String → Bool}
  {i : ℕ}

/-- A row of the table in which the simple propositions have the values of a
valuation. -/
def Shows (e : Evaluation) (numeric ordered : Bool) (ps : List Proposition) (i : ℕ)
    (w : String → Bool) : Prop :=
  ∀ n ∈ Proposition.simple ps, e.value (e.place ordered i) n = valuation numeric w n

lemma IsOf.exists_row (h : e.IsOf numeric ps) (ordered : Bool) (w : String → Bool) :
    ∃ i < e.rows, e.Shows numeric ordered ps i w := by
  have hlt : Bits.rowOf (Proposition.simple ps) w < e.rows := by
    rw [h.rows]
    exact Bits.rowOf_lt _ _
  refine ⟨e.place ordered (Bits.rowOf (Proposition.simple ps) w), place_lt hlt, fun n hn => ?_⟩
  rw [place_place ordered hlt, h.value_eq hn hlt, Bits.assigned_rowOf w hn, valuation]

lemma IsOf.exists_valuation (h : e.IsOf numeric ps) (ordered : Bool) (hi : i < e.rows) :
    ∃ w, e.Shows numeric ordered ps i w :=
  ⟨Bits.assigned (Proposition.simple ps) (e.place ordered i),
    fun _ hn => h.value_eq hn (place_lt hi)⟩

/-- A column with the vector of a formula has in a row the truth value of the formula for
the valuation of the row. -/
lemma Shows.iff {c : Column} {f : Formula} (hi : i < e.rows) (hw : e.Shows numeric ordered ps i w)
    (hf : c.StandsFor ps f)
    (hc : f.HasVector ps e.rows (fun i => e.value (e.place ordered i)) c.bits) (b : Bool) :
    c.bits[i]? = some b ↔ f.Means ps (valuation numeric w) b := by
  rw [hc.means i hi]
  exact Formula.means_congr hw hf.atoms_subset b

/-- What holds in every row holds for every valuation. -/
lemma IsOf.forall_rows_iff (h : e.IsOf numeric ps) (ordered : Bool) {P : ℕ → Prop}
    {Q : (String → Bool) → Prop}
    (hPQ : ∀ i < e.rows, ∀ w, e.Shows numeric ordered ps i w → (P i ↔ Q w)) :
    (∀ i < e.rows, P i) ↔ ∀ w, Q w := by
  constructor
  · intro hP w
    obtain ⟨i, hi, hw⟩ := h.exists_row ordered w
    exact (hPQ i hi w hw).mp (hP i hi)
  · intro hQ i hi
    obtain ⟨w, hw⟩ := h.exists_valuation ordered hi
    exact (hPQ i hi w hw).mpr (hQ w)

end Evaluation

/-! ### The entailments of a table -/

/-- An edge leads from a class to another one that it entails. -/
lemma Entailment.mem_edges_iff {t : Table} {i j : ℕ} :
    (i, j) ∈ (Entailment.ofTable t).graph.edges ↔ i ≠ j ∧
      ∃ k l, (Entailment.ofTable t).classes[i]? = some k ∧
        (Entailment.ofTable t).classes[j]? = some l ∧ Bits.entails k.bits l.bits = true := by
  rw [Entailment.ofTable]
  dsimp only
  rw [Digraph.mem_edges_ofRelation, List.mem_range, List.mem_range, Entailment.related,
    Bool.and_eq_true, bne_iff_ne]
  constructor
  · rintro ⟨hi, hj, hne, hrelated⟩
    rw [List.getElem?_eq_getElem hi, List.getElem?_eq_getElem hj] at hrelated
    exact ⟨hne, _, _, List.getElem?_eq_getElem hi, List.getElem?_eq_getElem hj, hrelated⟩
  · rintro ⟨hne, k, l, hk, hl, hentails⟩
    rw [hk, hl]
    exact ⟨(List.getElem?_eq_some_iff.mp hk).1, (List.getElem?_eq_some_iff.mp hl).1, hne, hentails⟩

/-- Entailments between columns that are those between their formulas, under all valuations
of the atoms. -/
structure Entailment.IsLogical (numeric : Bool) (ps : List Proposition) (F : Column → Formula)
    (e : Entailment) : Prop where
  /-- The classes are made of columns of the table. -/
  members : ∀ k ∈ e.classes, k.members ⊆ e.table.columns
  /-- Two columns are in one class if their formulas agree under every valuation. -/
  classes : ∀ c ∈ e.table.columns, ∀ d ∈ e.table.columns,
    ((∃ k ∈ e.classes, c ∈ k.members ∧ d ∈ k.members) ↔
      ∀ w b, (F c).Means ps (valuation numeric w) b ↔ (F d).Means ps (valuation numeric w) b)
  /-- There is an edge between two different classes if under every valuation that makes a
  member of the first true the members of the second are true. -/
  edges : ∀ i j, (i, j) ∈ e.graph.edges ↔ i ≠ j ∧
    ∃ k l, e.classes[i]? = some k ∧ e.classes[j]? = some l ∧
      ∀ w, (∃ c ∈ k.members, (F c).Means ps (valuation numeric w) true) →
        ∀ d ∈ l.members, (F d).Means ps (valuation numeric w) true
  /-- The tautologies are the columns whose formulas are true under every valuation. -/
  tautologies : ∀ c ∈ e.table.columns,
    (c ∈ e.table.tautologies ↔ ∀ w, (F c).Means ps (valuation numeric w) true)
  /-- The contradictions are those whose formulas are false under every valuation. -/
  contradictions : ∀ c ∈ e.table.columns,
    (c ∈ e.table.contradictions ↔ ∀ w, (F c).Means ps (valuation numeric w) false)

/-- **Entailments are logical.** Every column of a table stands for one formula, which has
one truth value under every valuation of the atoms.  The classes of the table, the edges
between them, its tautologies and its contradictions are what all valuations, and not just
the rows of the table, make of these formulas. -/
theorem Entailment.ofTable_means {numeric ordered : Bool} {text : String} {t : Table}
    (h : Table.ofText numeric ordered text = .ok t) :
    ∃ ps, ∃ F : Column → Formula, Proposition.parse numeric text = .ok ps ∧
      (∀ c ∈ t.columns, (∀ f, c.StandsFor ps f ↔ f = F c) ∧
        ∀ w, ∃! b, (F c).Means ps (valuation numeric w) b) ∧
      (Entailment.ofTable t).IsLogical numeric ps F := by
  obtain ⟨ps, hps, hclash⟩ := Table.parse_of_ok h
  obtain ⟨e, he, htable⟩ := Table.exists_evaluation hps hclash
  obtain rfl : e.table numeric ordered = t := Except.ok.inj ((htable ordered).symm.trans h)
  have hinhabited : Nonempty Formula := ⟨.atom ""⟩
  choose! F hF hvector using fun c => he.exists_formula ordered (c := c)
  have hsize := fun c hc => (hvector c hc).size
  have hrow : ∀ c ∈ (e.table numeric ordered).columns, ∀ i < e.rows, ∀ w,
      e.Shows numeric ordered ps i w →
        ∀ b, c.bits[i]? = some b ↔ (F c).Means ps (valuation numeric w) b :=
    fun c hc i hi w hw b => hw.iff hi (hF c hc) (hvector c hc) b
  have hgroups := EquivalenceClass.groups_ofColumns (e.table numeric ordered).columns
  refine ⟨ps, F, hps, fun c hc => ⟨fun f => ⟨fun hf => hf.eq hps (hF c hc), ?_⟩, fun w => ?_⟩,
    { members := fun k hk c hc => (hgroups.of_mem hk hc).1, classes := fun c hc d hd => ?_,
      edges := fun i j => ?_, tautologies := fun c hc => ?_, contradictions := fun c hc => ?_ }⟩
  · rintro rfl
    exact hF c hc
  · obtain ⟨i, hi, hw⟩ := he.exists_row ordered w
    have hget := Array.getElem?_eq_getElem (hsize c hc ▸ hi : i < c.bits.size)
    have hmeans := (hrow c hc i hi w hw _).mp hget
    exact ⟨_, hmeans, fun b hb => hb.eq hclash hmeans⟩
  · refine (hgroups.mem_and_mem_iff hc hd).trans ?_
    rw [Bits.eq_iff (hsize c hc) (hsize d hd)]
    refine he.forall_rows_iff ordered fun i hi w hw => forall_congr' fun b => ?_
    rw [hrow c hc i hi w hw, hrow d hd i hi w hw]
  · rw [Entailment.mem_edges_iff]
    refine and_congr_right fun _ => exists_congr fun k => exists_congr fun l =>
      and_congr_right fun hk => and_congr_right fun hl => ?_
    have hk' := List.mem_of_getElem? hk
    have hl' := List.mem_of_getElem? hl
    rw [hgroups.entails_iff hsize hk' hl']
    refine he.forall_rows_iff ordered fun i hi w hw => ?_
    have hmember : ∀ k ∈ EquivalenceClass.ofColumns (e.table numeric ordered).columns,
        ∀ c ∈ k.members, c.bits[i]? = some true ↔ (F c).Means ps (valuation numeric w) true :=
      fun k hk c hc => hrow c (hgroups.of_mem hk hc).1 i hi w hw true
    exact imp_congr (exists_congr fun c => and_congr_right fun hc => hmember k hk' c hc)
      (forall₂_congr fun d hd => hmember l hl' d hd)
  · refine List.mem_filter.trans ((and_iff_right hc).trans ?_)
    rw [Column.isTautology_iff (hsize c hc)]
    exact he.forall_rows_iff ordered fun i hi w hw => hrow c hc i hi w hw true
  · refine List.mem_filter.trans ((and_iff_right hc).trans ?_)
    rw [Column.isContradiction_iff (hsize c hc)]
    exact he.forall_rows_iff ordered fun i hi w hw => hrow c hc i hi w hw false

/-- A defined tautology is equivalent to the constant. -/
theorem Entailment.ofTable_means_constant :
    ∃ t, Table.ofText true true "p = a v !a, 1" = .ok t ∧
      ∃ ps, ∃ F : Column → Formula, Proposition.parse true "p = a v !a, 1" = .ok ps ∧
        (∀ c ∈ t.columns, (∀ f, c.StandsFor ps f ↔ f = F c) ∧
          ∀ w, ∃! b, (F c).Means ps (valuation true w) b) ∧
        (Entailment.ofTable t).IsLogical true ps F :=
  have h : Table.ofText true true "p = a v !a, 1" =
      .ok ⟨[⟨"1", "1", #[true, true, true, true], .simple⟩,
        ⟨"a", "a", #[false, true, false, true], .simple⟩,
        ⟨"p", "p = a ∨ ¬a", #[true, true, true, true], .named⟩], 4, true, true⟩ := by
    decide +kernel
  ⟨_, h, Entailment.ofTable_means h⟩

end Propositional
