/-
The entailments of a table, drawn with all edges or as a diagram.

* `GraphFigure.filterMap_points`: where all nodes have a place, the markers and the segments
  of a figure are there.
* `Entailment.DrawnAt`: the layers of the classes, found along any order, put them at given
  positions, and so does the figure.
* `IsPoset.exists_drawing`: the positions only depend on the paths, so an order and all its
  reductions are drawn at the same ones; `Entailment.reduction_places` says so of tables.
* `Bits.count_lt`: a vector is true in fewer rows than one that it strictly entails.
* `Entailment.Extremes`, `Entailment.ofTable_extremes`: shades grow along the edges, and the
  constant classes are alone at the top and at the bottom.
-/
import Propositional.Drawing.Figures
import Propositional.Proofs.Digraph.Places
import Propositional.Proofs.Hasse

namespace Propositional

/-! ### Drawings -/

/-- Where all nodes have a place, the markers and the segments are at these places. -/
lemma GraphFigure.filterMap_points {g : Digraph ℕ} {points : List (ℕ × Point)}
    {place : ℕ → Point} (hg : g.IsSound)
    (h : ∀ v ∈ g.nodes, points.lookup v = some (place v)) :
    (g.nodes.filterMap fun v => points.lookup v) = g.nodes.map place ∧
      g.edges.filterMap (segment points) = g.edges.map fun e => (place e.1, place e.2) := by
  constructor
  · rw [List.filterMap_congr h, List.filterMap_eq_map']
  · rw [← List.filterMap_eq_map']
    refine List.filterMap_congr fun e he => ?_
    obtain ⟨hsource, htarget⟩ := hg.ends e.1 e.2 he
    rw [segment, h e.1 hsource, h e.2 htarget]

/-- The point at a position. -/
def Point.ofPair (p : ℚ × ℚ) : Point := .exact p.1 p.2

namespace Entailment

variable {t : Table} {e : Entailment} {n : ℕ}

/-- The same classes with another graph. -/
def withGraph (e : Entailment) (graph : Digraph ℕ) : Entailment := { e with graph }

/-- Classes that are drawn in layers at the given positions. -/
structure DrawnAt [Digraph.Library ℕ] (e : Entailment) (position : ℕ → ℚ × ℚ) : Prop where
  nodes : e.graph.nodes = List.range e.classes.length
  acyclic : e.graph.Acyclic
  /-- Along every order the layers are found at these positions. -/
  layered : ∀ order, e.graph.IsOrder order →
    e.graph.layered order = order.map fun i => (i, position i)
  /-- The figure has its markers and its segments there. -/
  markers : ∀ g title, (GraphFigure.ofEntailment e .layers g title).nodes =
    some ((List.range e.classes.length).map fun i => .ofPair (position i))
  segments : ∀ g title, (GraphFigure.ofEntailment e .layers g title).segments =
    some (e.graph.edges.map fun edge => (.ofPair (position edge.1), .ofPair (position edge.2)))

/-- Where the layers are found at the same positions along every order, the figure has its
markers there. -/
lemma drawnAt_of_layered [Digraph.Library ℕ] [Digraph.LawfulLibrary ℕ] {position : ℕ → ℚ × ℚ}
    (hsound : e.graph.IsSound) (hnodes : e.graph.nodes = List.range e.classes.length)
    (hacyclic : e.graph.Acyclic) (hlayered : ∀ order, e.graph.IsOrder order →
      e.graph.layered order = order.map fun i => (i, position i)) : e.DrawnAt position := by
  obtain ⟨order, hsome, horder⟩ := Digraph.LawfulLibrary.exists_order hsound hacyclic
  have hpoints : e.graph.points? .layers =
      some (order.map fun i => (i, .ofPair (position i))) := by
    rw [Digraph.points?, hsome, Option.map_some, hlayered order horder, List.map_map]
    rfl
  obtain ⟨hmarkers, hsegments⟩ := GraphFigure.filterMap_points hsound fun i hi =>
    Digraph.lookup_map_self (f := fun i => Point.ofPair (position i)) (horder.perm.mem_iff.mpr hi)
  refine ⟨hnodes, hacyclic, hlayered, fun g title => ?_, fun g title => ?_⟩
  · rw [GraphFigure.ofEntailment, hpoints, ← hnodes]
    exact congrArg some hmarkers
  · rw [GraphFigure.ofEntailment, hpoints]
    exact congrArg some hsegments

/-- An order has a drawing, at whose positions it is drawn with any other graph that has the
same paths. -/
lemma IsPoset.exists_drawing [Digraph.Library ℕ] [Digraph.LawfulLibrary ℕ] (h : e.IsPoset) :
    ∃ level top position, e.graph.IsLayering level top position ∧ e.DrawnAt position ∧
      ∀ graph, e.graph.IsReduction graph → (e.withGraph graph).DrawnAt position := by
  obtain ⟨order, -, horder⟩ := Digraph.LawfulLibrary.exists_order h.isSound h.acyclic
  obtain ⟨level, top, position, hlayering, hsame⟩ := Digraph.exists_layering h.isSound horder
  refine ⟨level, top, position, hlayering, ?_, fun graph hgraph => ?_⟩
  · exact drawnAt_of_layered h.isSound h.nodes h.acyclic
      fun order horder => hsame e.graph order rfl (fun _ _ => Iff.rfl) horder
  · exact drawnAt_of_layered (hgraph.isSound h.isSound) (hgraph.nodes.trans h.nodes)
      (hgraph.acyclic h.acyclic) fun order horder =>
        hsame graph order hgraph.nodes (fun i j => (hgraph.reaches i j).symm) horder

lemma IsDiagram.eq {r : Entailment} (h : e.IsDiagram r) : r = e.withGraph r.graph := by
  obtain ⟨table, classes, graph⟩ := r
  obtain rfl := h.table
  obtain rfl := h.classes
  rfl

/-- **The diagram is drawn where the order is.**  In layers every class of a rectangular table
has the same position whether all entailments are drawn or only those of the diagram, be it the
one that is computed or any other reduction, and whatever the orders along which the layers are
found. -/
theorem reduction_places (h : t.IsRectangular) :
    ∃ position : ℕ → ℚ × ℚ, (ofTable t).DrawnAt position ∧
      (∀ graph, (ofTable t).graph.IsReduction graph →
        ((ofTable t).withGraph graph).DrawnAt position) ∧
      ∃ r, (ofTable t).reduction = .ok r ∧ (ofTable t).graph.IsReduction r.graph ∧
        r.DrawnAt position := by
  obtain ⟨n, hsize⟩ := h
  have hposet := isPoset_ofTable hsize
  obtain ⟨-, -, position, -, hfull, hreduced⟩ := hposet.exists_drawing
  obtain ⟨r, hr, hdiagram⟩ := hposet.exists_diagram
  refine ⟨position, hfull, hreduced, r, hr, hdiagram.reduction, ?_⟩
  rw [hdiagram.eq]
  exact hreduced r.graph hdiagram.reduction

/-- A vector below two others, of which one is below the other. -/
theorem reduction_places_chain :
    ∃ t : Table, t = ⟨[⟨"a", "a", #[true, true], .simple⟩, ⟨"b", "b", #[false, true], .simple⟩,
        ⟨"c", "c", #[false, false], .simple⟩], 2, true, true⟩ ∧ t.IsRectangular ∧
      ∃ position : ℕ → ℚ × ℚ, (ofTable t).DrawnAt position ∧
        (∀ graph, (ofTable t).graph.IsReduction graph →
          ((ofTable t).withGraph graph).DrawnAt position) ∧
        ∃ r, (ofTable t).reduction = .ok r ∧ (ofTable t).graph.IsReduction r.graph ∧
          r.DrawnAt position :=
  have h : Table.IsRectangular ⟨[⟨"a", "a", #[true, true], .simple⟩,
      ⟨"b", "b", #[false, true], .simple⟩, ⟨"c", "c", #[false, false], .simple⟩], 2, true, true⟩ :=
    ⟨2, by decide⟩
  ⟨_, rfl, h, reduction_places h⟩

end Entailment

/-! ### Shades -/

namespace Bits

variable {a b : Bits} {n : ℕ}

/-- A list that is true only where another one is has fewer true members, unless the lists are
the same. -/
lemma count_le_of_forall₂ {l l' : List Bool}
    (h : List.Forall₂ (fun p q => p = true → q = true) l l') :
    l.count true ≤ l'.count true ∧ (l.count true = l'.count true → l = l') := by
  induction h with
  | nil => exact ⟨le_rfl, fun _ => rfl⟩
  | @cons p q l l' hpq _ ih =>
      obtain ⟨hle, heq⟩ := ih
      cases p <;> cases q <;> simp_all
      omega

lemma count_lt (ha : a.size = n) (hb : b.size = n) (h : a.StrictlyEntails b) :
    a.count true < b.count true := by
  have hrows : List.Forall₂ (fun p q => p = true → q = true) a.toList b.toList := by
    refine List.forall₂_iff_get.mpr ⟨ha.trans hb.symm, fun i hi hj htrue => ?_⟩
    have hentails := h.2 i
    rw [Array.getElem?_eq_getElem hi, Array.getElem?_eq_getElem hj, Option.some_inj,
      Option.some_inj] at hentails
    exact hentails htrue
  obtain ⟨hle, heq⟩ := count_le_of_forall₂ hrows
  rw [Array.count_toList, Array.count_toList] at hle heq
  exact lt_of_le_of_ne hle fun hcount => h.1 (Array.toList_inj.mp (heq hcount))

lemma strictlyEntails_of_forall_true (ha : a.size = n) (hb : b.size = n)
    (htrue : ∀ v ∈ b, v = true) (hne : a ≠ b) : a.StrictlyEntails b := by
  refine ⟨hne, fun i hi => ?_⟩
  have hlt : i < b.size := hb.trans ha.symm ▸ (Array.getElem?_eq_some_iff.mp hi).1
  rw [Array.getElem?_eq_getElem hlt, htrue _ (Array.getElem_mem hlt)]

lemma strictlyEntails_of_forall_false (hfalse : ∀ v ∈ a, v = false) (hne : a ≠ b) :
    a.StrictlyEntails b :=
  ⟨hne, fun _ hi => absurd (hfalse true (Array.mem_of_getElem? hi)) Bool.true_eq_false_eq_False⟩

end Bits

namespace GraphFigure

variable {bits : Bits}

lemma shade_eq (h : 0 < bits.size) :
    shade bits = (bits.count true : ℚ) / (bits.size : ℚ) := if_neg h.ne'

lemma shade_eq_one_iff (h : 0 < bits.size) : shade bits = 1 ↔ ∀ v ∈ bits, v = true := by
  have hpos : (bits.size : ℚ) ≠ 0 := Nat.cast_ne_zero.mpr h.ne'
  rw [shade_eq h, div_eq_one_iff_eq hpos, Nat.cast_inj, Array.count_eq_size]
  exact forall₂_congr fun v _ => eq_comm

lemma shade_eq_zero_iff (h : 0 < bits.size) : shade bits = 0 ↔ ∀ v ∈ bits, v = false := by
  have hpos : (bits.size : ℚ) ≠ 0 := Nat.cast_ne_zero.mpr h.ne'
  rw [shade_eq h, div_eq_zero_iff, or_iff_left hpos, Nat.cast_eq_zero, Array.count_eq_zero]
  constructor
  · intro hnot v hv
    cases v with
    | false => rfl
    | true => exact absurd hv hnot
  · exact fun hall hmem => Bool.noConfusion (hall true hmem)

/-- The shade is greater for a vector that is strictly entailed. -/
lemma shade_lt {a b : Bits} {n : ℕ} (hpos : 0 < n) (ha : a.size = n) (hb : b.size = n)
    (h : a.StrictlyEntails b) : shade a < shade b := by
  rw [shade_eq (ha ▸ hpos), shade_eq (hb ▸ hpos), ha, hb]
  exact div_lt_div_of_pos_right (by exact_mod_cast Bits.count_lt ha hb h) (by exact_mod_cast hpos)

end GraphFigure

/-! ### Extremes -/

namespace Entailment

variable {t : Table} {k l : EquivalenceClass} {n i j : ℕ} {position : ℕ → ℚ × ℚ}

/-- The shades of classes grow along the edges, and the classes that are true or false in all
rows are alone at the top and at the bottom, with all others below and above them. -/
structure Extremes (e : Entailment) (below : ℕ → ℕ → Prop) (position : ℕ → ℚ × ℚ) : Prop where
  shade_lt : ∀ i j k l, e.graph.Adj i j → e.classes[i]? = some k → e.classes[j]? = some l →
    GraphFigure.shade k.bits < GraphFigure.shade l.bits
  shade_one : ∀ k ∈ e.classes, GraphFigure.shade k.bits = 1 ↔ k.members = e.table.tautologies
  shade_zero : ∀ k ∈ e.classes, GraphFigure.shade k.bits = 0 ↔ k.members = e.table.contradictions
  top : 2 ≤ e.classes.length → ∀ i k, e.classes[i]? = some k → (∀ v ∈ k.bits, v = true) →
    (∀ j < e.classes.length, j ≠ i → below j i) ∧ position i = (1 / 2, 1) ∧
      ∀ j < e.classes.length, (position j).2 = 1 → j = i
  bottom : 2 ≤ e.classes.length → ∀ i k, e.classes[i]? = some k → (∀ v ∈ k.bits, v = false) →
    (∀ j < e.classes.length, j ≠ i → below i j) ∧ position i = (1 / 2, 0) ∧
      ∀ j < e.classes.length, (position j).2 = 0 → j = i

/-- The members of a class are the columns that are constant, if its vector is. -/
lemma members_eq_filter_iff (hsize : ∀ c ∈ t.columns, c.bits.size = n)
    (hk : k ∈ (ofTable t).classes) (P : Column → Bool) {v : Bool}
    (hP : ∀ c ∈ t.columns, P c = true ↔ ∀ w ∈ c.bits, w = v) :
    k.members = t.columns.filter P ↔ ∀ w ∈ k.bits, w = v := by
  have hksize : k.bits.size = n := size_of_mem_classes hsize hk
  constructor
  · intro hmembers
    have hgroups := EquivalenceClass.groups_ofColumns t.columns
    obtain ⟨c, hc⟩ := List.exists_mem_of_ne_nil _ (hgroups.ne_nil k hk)
    obtain ⟨hcolumn, hbits⟩ := hgroups.of_mem hk hc
    rw [hmembers, List.mem_filter, hP c hcolumn, hbits] at hc
    exact hc.2
  · intro hconstant
    rw [(EquivalenceClass.partition_ofColumns t.columns).members k hk]
    refine List.filter_congr fun c hc => ?_
    rw [Bool.eq_iff_iff, decide_eq_true_iff, hP c hc]
    constructor
    · intro heq
      rwa [heq]
    · intro hall
      refine Array.ext ((hsize c hc).trans hksize.symm) fun i hi hj => ?_
      rw [hall _ (Array.getElem_mem hi), hconstant _ (Array.getElem_mem hj)]

/-- The tautologies make up the class whose shade is one. -/
lemma shade_eq_one_iff (hpos : 0 < n) (hsize : ∀ c ∈ t.columns, c.bits.size = n)
    (hk : k ∈ (ofTable t).classes) : GraphFigure.shade k.bits = 1 ↔ k.members = t.tautologies := by
  rw [GraphFigure.shade_eq_one_iff (size_of_mem_classes hsize hk ▸ hpos)]
  refine (members_eq_filter_iff hsize hk _ fun c _ => ?_).symm
  rw [Column.isTautology, Array.all_eq_true']

/-- The contradictions make up the class whose shade is zero. -/
lemma shade_eq_zero_iff (hpos : 0 < n) (hsize : ∀ c ∈ t.columns, c.bits.size = n)
    (hk : k ∈ (ofTable t).classes) :
    GraphFigure.shade k.bits = 0 ↔ k.members = t.contradictions := by
  rw [GraphFigure.shade_eq_zero_iff (size_of_mem_classes hsize hk ▸ hpos)]
  refine (members_eq_filter_iff hsize hk _ fun c _ => ?_).symm
  rw [Column.isContradiction, Bool.not_eq_true', Array.any_eq_false']
  simp only [Bool.not_eq_true]

/-- The shade grows along an edge. -/
lemma shade_lt_of_adj (hpos : 0 < n) (hsize : ∀ c ∈ t.columns, c.bits.size = n)
    (h : (ofTable t).graph.Adj i j) (hk : (ofTable t).classes[i]? = some k)
    (hl : (ofTable t).classes[j]? = some l) :
    GraphFigure.shade k.bits < GraphFigure.shade l.bits := by
  obtain ⟨k', l', hk', hl', hentails⟩ := (adj_iff hsize).mp h
  obtain rfl : k = k' := Option.some.inj (hk.symm.trans hk')
  obtain rfl : l = l' := Option.some.inj (hl.symm.trans hl')
  exact GraphFigure.shade_lt hpos (size_of_mem_classes hsize (List.mem_of_getElem? hk))
    (size_of_mem_classes hsize (List.mem_of_getElem? hl)) hentails

lemma adj_of_forall_true (hsize : ∀ c ∈ t.columns, c.bits.size = n)
    (hk : (ofTable t).classes[i]? = some k) (htrue : ∀ v ∈ k.bits, v = true)
    (hj : j < (ofTable t).classes.length) (hne : j ≠ i) : (ofTable t).graph.Adj j i := by
  have hl := List.getElem?_eq_getElem hj
  refine (adj_iff hsize).mpr ⟨_, k, hl, hk, ?_⟩
  refine Bits.strictlyEntails_of_forall_true (size_of_mem_classes hsize (List.mem_of_getElem? hl))
    (size_of_mem_classes hsize (List.mem_of_getElem? hk)) htrue fun heq => hne ?_
  exact (EquivalenceClass.bits_eq_iff hl hk).mp heq

lemma adj_of_forall_false (hsize : ∀ c ∈ t.columns, c.bits.size = n)
    (hk : (ofTable t).classes[i]? = some k) (hfalse : ∀ v ∈ k.bits, v = false)
    (hj : j < (ofTable t).classes.length) (hne : j ≠ i) : (ofTable t).graph.Adj i j := by
  have hl := List.getElem?_eq_getElem hj
  refine (adj_iff hsize).mpr ⟨k, _, hk, hl, ?_⟩
  refine Bits.strictlyEntails_of_forall_false hfalse fun heq => hne ?_
  exact (EquivalenceClass.bits_eq_iff hl hk).mp heq.symm

/-- A drawing of the order has its extremes, and so has that of any graph with the same
paths. -/
lemma extremes_of_isLayering {level : ℕ → ℕ} {top : ℕ} {graph : Digraph ℕ} {below : ℕ → ℕ → Prop}
    (hpos : 0 < n) (hsize : ∀ c ∈ t.columns, c.bits.size = n)
    (h : (ofTable t).graph.IsLayering level top position)
    (hgraph : ∀ i j, graph.Adj i j → (ofTable t).graph.Adj i j)
    (hbelow : ∀ i j, (ofTable t).graph.Adj i j → below i j) :
    ((ofTable t).withGraph graph).Extremes below position := by
  have hsound : (ofTable t).graph.IsSound := (isPoset_ofTable hsize).isSound
  have hnode : ∀ {i : ℕ}, i ∈ (ofTable t).graph.nodes ↔ i < (ofTable t).classes.length := by
    intro i
    rw [(isPoset_ofTable hsize).nodes, List.mem_range]
  have hother : 2 ≤ (ofTable t).classes.length → ∀ i, ∃ j ∈ (ofTable t).graph.nodes, j ≠ i := by
    intro htwo i
    by_cases hi : i = 0
    · exact ⟨1, hnode.mpr (by omega), by omega⟩
    · exact ⟨0, hnode.mpr (by omega), by omega⟩
  refine { shade_lt := fun i j k l hij hk hl => shade_lt_of_adj hpos hsize (hgraph i j hij) hk hl,
           shade_one := fun k hk => shade_eq_one_iff hpos hsize hk,
           shade_zero := fun k hk => shade_eq_zero_iff hpos hsize hk,
           top := fun htwo i k hk htrue => ?_, bottom := fun htwo i k hk hfalse => ?_ }
  · have hall : ∀ j ∈ (ofTable t).graph.nodes, j ≠ i → (ofTable t).graph.Adj j i :=
      fun j hj => adj_of_forall_true hsize hk htrue (hnode.mp hj)
    have hi : i ∈ (ofTable t).graph.nodes := hnode.mpr (List.getElem?_eq_some_iff.mp hk).1
    obtain ⟨hposition, halone⟩ := h.greatest hsound hi hall (hother htwo i)
    exact ⟨fun j hj hji => hbelow j i (hall j (hnode.mpr hj) hji), hposition,
      fun j hj => halone j (hnode.mpr hj)⟩
  · have hall : ∀ j ∈ (ofTable t).graph.nodes, j ≠ i → (ofTable t).graph.Adj i j :=
      fun j hj => adj_of_forall_false hsize hk hfalse (hnode.mp hj)
    have hi : i ∈ (ofTable t).graph.nodes := hnode.mpr (List.getElem?_eq_some_iff.mp hk).1
    obtain ⟨hposition, halone⟩ := h.least hsound hi hall
    exact ⟨fun j hj hji => hbelow i j (hall j (hnode.mpr hj) hji), hposition,
      fun j hj => halone j (hnode.mpr hj)⟩

/-- **The extremes of a drawing.**  Where all vectors of a table have the same length, and
there are rows, its order and every reduction of it are drawn in layers at the same positions.
The shade is greater at the end of an edge than at its source, and it is one or zero for the
tautologies or the contradictions alone.  If there are two classes or more, a class of
tautologies has all others below it and is alone at the top, and a class of contradictions is
below all others and alone at the bottom. -/
theorem ofTable_extremes (hpos : 0 < n) (hsize : ∀ c ∈ t.columns, c.bits.size = n) :
    ∃ position : ℕ → ℚ × ℚ,
      ((ofTable t).DrawnAt position ∧ (ofTable t).Extremes (ofTable t).graph.Adj position) ∧
      (∀ graph, (ofTable t).graph.IsReduction graph →
        ((ofTable t).withGraph graph).DrawnAt position ∧
          ((ofTable t).withGraph graph).Extremes graph.Reaches position) ∧
      ∃ r, (ofTable t).reduction = .ok r ∧ (ofTable t).graph.IsReduction r.graph ∧
        r.DrawnAt position ∧ r.Extremes r.graph.Reaches position := by
  have hposet := isPoset_ofTable hsize
  obtain ⟨level, top, position, hlayering, hfull, hreduced⟩ := hposet.exists_drawing
  have hextremes : ∀ graph, (ofTable t).graph.IsReduction graph →
      ((ofTable t).withGraph graph).Extremes graph.Reaches position := by
    intro graph hgraph
    refine extremes_of_isLayering hpos hsize hlayering (fun i j hij => ?_) fun i j hij => ?_
    · exact hposet.reaches_iff.mp ((hgraph.reaches i j).mp (.single hij))
    · exact (hgraph.reaches i j).mpr (.single hij)
  obtain ⟨r, hr, hdiagram⟩ := hposet.exists_diagram
  refine ⟨position, ⟨hfull, ?_⟩,
    fun graph hgraph => ⟨hreduced graph hgraph, hextremes graph hgraph⟩,
    r, hr, hdiagram.reduction, ?_⟩
  · exact extremes_of_isLayering hpos hsize hlayering (fun _ _ => id) fun _ _ => id
  · rw [hdiagram.eq]
    exact ⟨hreduced r.graph hdiagram.reduction, hextremes r.graph hdiagram.reduction⟩

/-- A table with two tautologies, a contradiction and a vector between. -/
theorem ofTable_extremes_constants :
    ∃ t : Table, t = ⟨[⟨"a", "a", #[true, true], .simple⟩, ⟨"b", "b", #[false, true], .simple⟩,
        ⟨"c", "c", #[false, false], .simple⟩, ⟨"d", "d", #[true, true], .simple⟩], 2, true, true⟩ ∧
      (∀ c ∈ t.columns, c.bits.size = 2) ∧ ∃ position : ℕ → ℚ × ℚ,
        ((ofTable t).DrawnAt position ∧ (ofTable t).Extremes (ofTable t).graph.Adj position) ∧
        (∀ graph, (ofTable t).graph.IsReduction graph →
          ((ofTable t).withGraph graph).DrawnAt position ∧
            ((ofTable t).withGraph graph).Extremes graph.Reaches position) ∧
        ∃ r, (ofTable t).reduction = .ok r ∧ (ofTable t).graph.IsReduction r.graph ∧
          r.DrawnAt position ∧ r.Extremes r.graph.Reaches position :=
  have h : ∀ c ∈ (⟨[⟨"a", "a", #[true, true], .simple⟩, ⟨"b", "b", #[false, true], .simple⟩,
      ⟨"c", "c", #[false, false], .simple⟩, ⟨"d", "d", #[true, true], .simple⟩], 2, true,
        true⟩ : Table).columns, c.bits.size = 2 := by
    decide
  ⟨_, rfl, h, ofTable_extremes (by decide) h⟩

/-- Without rows there is one class, and its shade is zero although it has all tautologies. -/
example : ((ofTable ⟨[⟨"a", "a", #[], .simple⟩], 0, true, true⟩).classes.map
    fun k => (GraphFigure.shade k.bits, k.members.map Column.header)) = [(0, ["a"])] := by
  decide +kernel

end Entailment

end Propositional
