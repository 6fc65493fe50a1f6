/-
The places of the nodes of an acyclic graph that is drawn in layers.

* `Digraph.IsLayering`: a drawing in which the rows are the depths, none of them is left out,
  and the nodes of a row are in order.
* `IsLayering.mem_unit`, `IsLayering.lt_of_adj`, `IsLayering.injective`: such a drawing is in
  the unit square, its edges lead upwards, and every node has a place of its own.
* `Digraph.exists_layering`: the layers that are found along any order make such a drawing,
  and it is the same for all orders and for all graphs with the same paths.
* `Digraph.layered_places`: every acyclic graph is drawn so.
-/
import Propositional.Drawing.Layout
import Propositional.Proofs.Digraph.Layers
import Propositional.Proofs.Digraph.Reduction

namespace Propositional.Digraph

/-! ### Drawings in layers -/

variable {α : Type} [LinearOrder α] {g : Digraph α} {u v : α} {order : List α}
  {level : α → ℕ} {top : ℕ} {position : α → ℚ × ℚ}

/-- A drawing of a graph whose nodes are on the given levels. -/
structure IsLayering (g : Digraph α) (level : α → ℕ) (top : ℕ) (position : α → ℚ × ℚ) :
    Prop where
  /-- The level of a node is the length of the longest walk that ends at it. -/
  depth : ∀ v ∈ g.nodes, g.IsDepth v (level v)
  level_le : ∀ v ∈ g.nodes, level v ≤ top
  /-- No level is left out. -/
  occupied : g.nodes ≠ [] → ∀ n ≤ top, ∃ v ∈ g.nodes, level v = n
  /-- The levels are spread evenly from the bottom to the top. -/
  height : ∀ v ∈ g.nodes, (position v).2 = level v / if g.edges = [] then 1 else (top : ℚ)
  /-- The nodes of a level are in order and spread evenly from left to right; one that is
  alone is in the middle. -/
  row : ∀ n, ∃ row : List α, row.Pairwise (· < ·) ∧ (∀ v, v ∈ row ↔ v ∈ g.nodes ∧ level v = n) ∧
    ∀ (i : ℕ) v, row[i]? = some v →
      (position v).1 = if row.length = 1 then 1 / 2 else (i : ℚ) / (row.length - 1)

namespace IsLayering

lemma level_lt (h : g.IsLayering level top position) (hg : g.IsSound) (hedge : g.Adj u v) :
    level u < level v := by
  obtain ⟨hu, hv⟩ := hg.ends u v hedge
  exact (h.depth u hu).lt_of_adj (h.depth v hv) hedge

lemma scale_pos (h : g.IsLayering level top position) (hg : g.IsSound) :
    0 < if g.edges = [] then 1 else (top : ℚ) := by
  split
  · exact one_pos
  · next hedges =>
      obtain ⟨⟨u, v⟩, hedge⟩ := List.exists_mem_of_ne_nil _ hedges
      have hlt : level u < level v := h.level_lt hg hedge
      have hle : level v ≤ top := h.level_le v (hg.ends u v hedge).2
      exact_mod_cast (Nat.zero_le _).trans_lt (hlt.trans_le hle)

/-- Nodes are at one height only if they are on one level. -/
lemma level_eq (h : g.IsLayering level top position) (hg : g.IsSound) (hu : u ∈ g.nodes)
    (hv : v ∈ g.nodes) (heq : (position u).2 = (position v).2) : level u = level v := by
  rw [h.height u hu, h.height v hv, div_left_inj' (h.scale_pos hg).ne'] at heq
  exact_mod_cast heq

lemma lt_of_adj (h : g.IsLayering level top position) (hg : g.IsSound) (hedge : g.Adj u v) :
    (position u).2 < (position v).2 := by
  obtain ⟨hu, hv⟩ := hg.ends u v hedge
  rw [h.height u hu, h.height v hv]
  exact div_lt_div_of_pos_right (by exact_mod_cast h.level_lt hg hedge) (h.scale_pos hg)

/-- A node has a number on its level, which is its place from left to right. -/
lemma exists_row (h : g.IsLayering level top position) (hv : v ∈ g.nodes) :
    ∃ (row : List α) (i : ℕ), row[i]? = some v ∧
      (∀ w, w ∈ row ↔ w ∈ g.nodes ∧ level w = level v) ∧
      ∀ (j : ℕ) w, row[j]? = some w →
        (position w).1 = if row.length = 1 then 1 / 2 else (j : ℚ) / (row.length - 1) := by
  obtain ⟨row, -, hmem, hplace⟩ := h.row (level v)
  obtain ⟨i, hi⟩ := List.mem_iff_getElem?.mp ((hmem v).mpr ⟨hv, rfl⟩)
  exact ⟨row, i, hi, hmem, hplace⟩

lemma mem_unit (h : g.IsLayering level top position) (hg : g.IsSound) (hv : v ∈ g.nodes) :
    (position v).1 ∈ Set.Icc (0 : ℚ) 1 ∧ (position v).2 ∈ Set.Icc (0 : ℚ) 1 := by
  have hscale := h.scale_pos hg
  constructor
  · obtain ⟨row, i, hi, -, hplace⟩ := h.exists_row hv
    have hlt : i < row.length := (List.getElem?_eq_some_iff.mp hi).1
    rw [hplace i v hi]
    split
    · norm_num
    · next hne =>
        have hwidth : (0 : ℚ) < row.length - 1 := by
          rw [sub_pos]
          exact_mod_cast (show 1 < row.length by omega)
        have hle : (i : ℚ) ≤ row.length - 1 := by
          rw [le_sub_iff_add_le]
          exact_mod_cast hlt
        exact ⟨div_nonneg (Nat.cast_nonneg i) hwidth.le, (div_le_one hwidth).mpr hle⟩
  · rw [h.height v hv]
    refine ⟨div_nonneg (Nat.cast_nonneg _) hscale.le, (div_le_one hscale).mpr ?_⟩
    have hle : level v ≤ top := h.level_le v hv
    split
    · next hedges =>
        rw [(h.depth v hv).eq_zero hedges]
        norm_num
    · exact_mod_cast hle

lemma injective (h : g.IsLayering level top position) (hg : g.IsSound) (hu : u ∈ g.nodes)
    (hv : v ∈ g.nodes) (heq : position u = position v) : u = v := by
  obtain ⟨row, j, hj, hmem, hplace⟩ := h.exists_row hv
  have hlevel : level u = level v := h.level_eq hg hu hv (congrArg Prod.snd heq)
  obtain ⟨i, hi⟩ := List.mem_iff_getElem?.mp ((hmem u).mpr ⟨hu, hlevel⟩)
  have hx := congrArg Prod.fst heq
  rw [hplace i u hi, hplace j v hj] at hx
  have hilt : i < row.length := (List.getElem?_eq_some_iff.mp hi).1
  have hjlt : j < row.length := (List.getElem?_eq_some_iff.mp hj).1
  have hij : i = j := by
    split at hx
    · omega
    · next hne =>
        have hwidth : (row.length : ℚ) - 1 ≠ 0 := by
          rw [sub_ne_zero]
          exact_mod_cast hne
        exact_mod_cast (div_left_inj' hwidth).mp hx
  rw [hij, hj] at hi
  exact (Option.some.inj hi).symm

lemma fst_of_alone (h : g.IsLayering level top position) (hv : v ∈ g.nodes)
    (halone : ∀ u ∈ g.nodes, level u = level v → u = v) : (position v).1 = 1 / 2 := by
  obtain ⟨row, hrow, hmem, hplace⟩ := h.row (level v)
  have hall : ∀ u ∈ row, u = v := by
    intro u hu
    obtain ⟨hu, hlevel⟩ := (hmem u).mp hu
    exact halone u hu hlevel
  have hself : v ∈ row := (hmem v).mpr ⟨hv, rfl⟩
  cases row with
  | nil => cases hself
  | cons u row =>
      cases row with
      | nil => exact hplace 0 v (congrArg some (hall u List.mem_cons_self))
      | cons w row =>
          -- two members of the row would be the same and yet in order
          have hlt : u < w := (List.pairwise_cons.mp hrow).1 w List.mem_cons_self
          rw [hall u (by simp), hall w (by simp)] at hlt
          exact absurd hlt (lt_irrefl v)

/-- A node that all others have an edge to is alone at the top. -/
lemma greatest (h : g.IsLayering level top position) (hg : g.IsSound) (hv : v ∈ g.nodes)
    (hbelow : ∀ u ∈ g.nodes, u ≠ v → g.Adj u v) (hother : ∃ u ∈ g.nodes, u ≠ v) :
    position v = (1 / 2, 1) ∧ ∀ u ∈ g.nodes, (position u).2 = 1 → u = v := by
  have hlt : ∀ u ∈ g.nodes, u ≠ v → level u < level v :=
    fun u hu hne => h.level_lt hg (hbelow u hu hne)
  have hunique : ∀ u ∈ g.nodes, level u = level v → u = v :=
    fun u hu heq => by_contra fun hne => (hlt u hu hne).ne heq
  have htop : level v = top := by
    obtain ⟨u, hu, heq⟩ := h.occupied (List.ne_nil_of_mem hv) top le_rfl
    by_cases hne : u = v
    · rw [← hne, heq]
    · have := hlt u hu hne
      have := h.level_le v hv
      omega
  obtain ⟨u, hu, hne⟩ := hother
  have hedges : g.edges ≠ [] := List.ne_nil_of_mem (hbelow u hu hne)
  have hheight : (position v).2 = 1 := by
    have hpos : (top : ℚ) ≠ 0 := by
      have := hlt u hu hne
      rw [Nat.cast_ne_zero]
      omega
    rw [h.height v hv, if_neg hedges, htop, div_self hpos]
  refine ⟨Prod.ext (h.fst_of_alone hv hunique) hheight, fun w hw hone => ?_⟩
  exact hunique w hw (h.level_eq hg hw hv (hone.trans hheight.symm))

/-- A node that has an edge to all others is alone at the bottom. -/
lemma least (h : g.IsLayering level top position) (hg : g.IsSound) (hv : v ∈ g.nodes)
    (habove : ∀ u ∈ g.nodes, u ≠ v → g.Adj v u) :
    position v = (1 / 2, 0) ∧ ∀ u ∈ g.nodes, (position u).2 = 0 → u = v := by
  have hlt : ∀ u ∈ g.nodes, u ≠ v → level v < level u :=
    fun u hu hne => h.level_lt hg (habove u hu hne)
  have hunique : ∀ u ∈ g.nodes, level u = level v → u = v :=
    fun u hu heq => by_contra fun hne => (hlt u hu hne).ne' heq
  have hbottom : level v = 0 := by
    obtain ⟨u, hu, heq⟩ := h.occupied (List.ne_nil_of_mem hv) 0 (Nat.zero_le _)
    by_cases hne : u = v
    · rw [← hne, heq]
    · have := hlt u hu hne
      omega
  have hheight : (position v).2 = 0 := by
    rw [h.height v hv, hbottom, Nat.cast_zero, zero_div]
  refine ⟨Prod.ext (h.fst_of_alone hv hunique) hheight, fun w hw hzero => ?_⟩
  exact hunique w hw (h.level_eq hg hw hv (hzero.trans hheight.symm))

end IsLayering

/-! ### The layers that are found -/

/-- The places do not depend on how the levels are listed. -/
lemma place_congr {levels levels' : List (α × ℕ)} (h : levels.Perm levels') (v : α) (n : ℕ) :
    place levels v n = place levels' v n := by
  have hrow : ((levels.filter fun entry => entry.2 = n).map Prod.fst).Perm
      ((levels'.filter fun entry => entry.2 = n).map Prod.fst) := (h.filter _).map _
  have hheight : height levels = height levels' := by
    have hcomm : RightCommutative fun (m : ℕ) (entry : α × ℕ) => max m entry.2 :=
      ⟨fun m e e' => max_right_comm m e.2 e'.2⟩
    exact h.foldl_eq 0
  rw [place, place, hrow.length_eq, (hrow.filter _).length_eq, hheight]

/-- A member of an increasing list has its index as the number of members before it. -/
lemma length_before_eq {row : List α} (hrow : row.Pairwise (· < ·)) {i : ℕ}
    (hv : row[i]? = some v) : (row.filter fun w => w ≤ v ∧ w ≠ v).length = i := by
  induction row generalizing i with
  | nil => cases hv
  | cons w row ih =>
      obtain ⟨hw, hrow⟩ := List.pairwise_cons.mp hrow
      cases i with
      | zero =>
          obtain rfl := Option.some.inj hv
          have hnone : ∀ x ∈ w :: row, ¬ (x ≤ w ∧ x ≠ w) := by
            intro x hx
            rcases List.mem_cons.mp hx with rfl | hx
            · simp
            · exact fun h => (hw x hx).not_ge h.1
          rw [List.filter_eq_nil_iff.mpr fun x hx => by simpa using hnone x hx]
          rfl
      | succ i =>
          have hlt : w < v := hw v (List.mem_of_getElem? hv)
          rw [List.filter_cons_of_pos (by simp [hlt.le, hlt.ne]), List.length_cons, ih hrow hv]

/-- The nodes of a level, in order, are at the places of their numbers. -/
lemma exists_row_of_levels {levels : List (α × ℕ)} (hnodup : (levels.map Prod.fst).Nodup)
    (n : ℕ) : ∃ row : List α, row.Pairwise (· < ·) ∧ (∀ v, v ∈ row ↔ (v, n) ∈ levels) ∧
      ∀ (i : ℕ) v, row[i]? = some v →
        (place levels v n).1 = if row.length = 1 then 1 / 2 else (i : ℚ) / (row.length - 1) := by
  generalize hlisted : (levels.filter fun entry => entry.2 = n).map Prod.fst = listed
  have hperm : (listed.insertionSort (· ≤ ·)).Perm listed := List.perm_insertionSort _ _
  have hlistedNodup : listed.Nodup := hlisted ▸ hnodup.sublist (List.filter_sublist.map _)
  have hrow : (listed.insertionSort (· ≤ ·)).Pairwise (· < ·) :=
    ((List.pairwise_insertionSort (· ≤ ·) listed).and
      (hperm.nodup_iff.mpr hlistedNodup)).imp fun h => lt_of_le_of_ne h.1 h.2
  refine ⟨listed.insertionSort (· ≤ ·), hrow, fun v => ?_, fun i v hv => ?_⟩
  · rw [hperm.mem_iff, ← hlisted]
    simp
  · have hlt : i < (listed.insertionSort (· ≤ ·)).length := (List.getElem?_eq_some_iff.mp hv).1
    rw [place, hlisted]
    dsimp only
    rw [← (hperm.filter _).length_eq, length_before_eq hrow hv, ← hperm.length_eq]
    by_cases hlength : (listed.insertionSort (· ≤ ·)).length = 1
    · rw [if_pos hlength.le, if_pos hlength]
    · rw [if_neg (by omega), if_neg hlength, Nat.cast_sub (by omega), Nat.cast_one]

section Levels

variable (hg : g.IsSound) (horder : g.IsOrder order)
  (hlevel : ∀ v ∈ g.nodes, (v, level v) ∈ g.levels order)

include horder hlevel in
lemma mem_levels_iff_eq {n : ℕ} : (v, n) ∈ g.levels order ↔ v ∈ g.nodes ∧ level v = n := by
  rw [mem_levels_iff horder]
  refine and_congr_right fun hv => ?_
  have hdepth := ((mem_levels_iff horder).mp (hlevel v hv)).2
  refine ⟨hdepth.unique, ?_⟩
  rintro rfl
  exact hdepth

include hg horder hlevel in
/-- The levels are divided by the greatest one, and by one if there are no edges. -/
lemma max_height_eq : ((max (height (g.levels order)) 1 : ℕ) : ℚ) =
    if g.edges = [] then 1 else (height (g.levels order) : ℚ) := by
  obtain ⟨hle, hattained⟩ := height_spec (g.levels order)
  have hdepth : ∀ v ∈ g.nodes, g.IsDepth v (level v) :=
    fun v hv => ((mem_levels_iff horder).mp (hlevel v hv)).2
  split
  · next hedges =>
      -- all levels are zero, and so is the greatest
      have hzero : height (g.levels order) = 0 := by
        by_cases hnil : g.levels order = []
        · rw [hnil]
          rfl
        · obtain ⟨⟨v, n⟩, hmem, heq⟩ := hattained hnil
          rw [← heq]
          exact ((mem_levels_iff horder).mp hmem).2.eq_zero hedges
      rw [hzero]
      norm_num
  · next hedges =>
      obtain ⟨⟨u, v⟩, hedge⟩ := List.exists_mem_of_ne_nil _ hedges
      obtain ⟨hu, hv⟩ := hg.ends u v hedge
      have hlt : level u < level v := (hdepth u hu).lt_of_adj (hdepth v hv) hedge
      have hheight : level v ≤ height (g.levels order) := hle _ (hlevel v hv)
      rw [max_eq_left (by omega)]

include hg horder hlevel in
/-- The places on the levels that are found along an order make a drawing. -/
lemma isLayering_levels :
    g.IsLayering level (height (g.levels order)) fun v => place (g.levels order) v (level v) := by
  obtain ⟨hle, hattained⟩ := height_spec (g.levels order)
  have hdepth : ∀ v ∈ g.nodes, g.IsDepth v (level v) :=
    fun v hv => ((mem_levels_iff horder).mp (hlevel v hv)).2
  refine ⟨hdepth, fun v hv => hle _ (hlevel v hv), fun hne n hn => ?_, fun v hv => ?_,
    fun n => ?_⟩
  · obtain ⟨w, hw⟩ := List.exists_mem_of_ne_nil _ hne
    obtain ⟨⟨v, m⟩, hmem, rfl⟩ := hattained (List.ne_nil_of_mem (hlevel w hw))
    obtain ⟨hv, htop⟩ := (mem_levels_iff_eq horder hlevel).mp hmem
    exact exists_level hg hdepth hv (htop ▸ hn)
  · rw [← max_height_eq hg horder hlevel]
    rfl
  · have hnodup : ((g.levels order).map Prod.fst).Nodup := by
      rw [map_fst_levels]
      exact horder.perm.nodup_iff.mpr hg.nodup
    obtain ⟨row, hrow, hmem, hplace⟩ := exists_row_of_levels hnodup n
    have hiff : ∀ v, v ∈ row ↔ v ∈ g.nodes ∧ level v = n :=
      fun v => (hmem v).trans (mem_levels_iff_eq horder hlevel)
    refine ⟨row, hrow, hiff, fun i v hv => ?_⟩
    obtain ⟨-, rfl⟩ := (hiff v).mp (List.mem_of_getElem? hv)
    exact hplace i v hv

end Levels

/-- The layers make a drawing, and it is the same along all orders of all graphs with the same
paths. -/
lemma exists_layering (hg : g.IsSound) (horder : g.IsOrder order) :
    ∃ level top position, g.IsLayering level top position ∧
      ∀ (g' : Digraph α) (order' : List α), g'.nodes = g.nodes →
        (∀ u v, g.Reaches u v ↔ g'.Reaches u v) → g'.IsOrder order' →
          g'.layered order' = order'.map fun v => (v, position v) := by
  have hkeys : ∀ v ∈ g.nodes, ∃ n, (v, n) ∈ g.levels order := by
    intro v hv
    rw [← horder.perm.mem_iff, ← map_fst_levels g order] at hv
    obtain ⟨⟨v, n⟩, hmem, rfl⟩ := List.mem_map.mp hv
    exact ⟨n, hmem⟩
  choose! level hlevel using hkeys
  refine ⟨level, _, _, isLayering_levels hg horder hlevel,
    fun g' order' hnodes hreach horder' => ?_⟩
  have hperm := levels_perm hg horder horder' hnodes hreach
  calc g'.layered order'
      = (g'.levels order').map fun e => (e.1, place (g.levels order) e.1 (level e.1)) := by
        refine List.map_congr_left fun ⟨v, n⟩ hmem => ?_
        obtain ⟨-, rfl⟩ := (mem_levels_iff_eq horder hlevel).mp (hperm.mem_iff.mpr hmem)
        exact congrArg (v, ·) (place_congr hperm.symm v (level v))
    _ = ((g'.levels order').map Prod.fst).map
          fun v => (v, place (g.levels order) v (level v)) := by
        rw [List.map_map]
        rfl
    _ = order'.map fun v => (v, place (g.levels order) v (level v)) := by rw [map_fst_levels]

/-- The nodes in layers, with their points, where the layers are found along an order. -/
def drawnAlong (g : Digraph α) (order : List α) : List (α × Point) :=
  (g.layered order).map fun (v, x, y) => (v, .exact x y)

lemma lookup_map_self {β : Type} {f : α → β} {l : List α} (hv : v ∈ l) :
    (l.map fun u => (u, f u)).lookup v = some (f v) := by
  have hkey : v ∈ (l.map fun u => (u, f u)).map Prod.fst := by
    rw [List.map_map]
    exact List.mem_map.mpr ⟨v, hv, rfl⟩
  obtain ⟨b, hb, hmem⟩ := Entries.exists_lookup hkey
  obtain ⟨u, -, heq⟩ := List.mem_map.mp hmem
  obtain ⟨rfl, rfl⟩ := Prod.mk.inj heq
  exact hb

/-- **Acyclic graphs are drawn in layers.**  Every graph without a cycle has a drawing in the
unit square in which the height of a node is that of its level, the length of the longest walk
that ends there.  No level is left out, and the nodes of a level are spread in order; so edges
lead upwards, and every node has a place of its own.  Whatever the order in which every edge
goes forwards, the layers that are found along it make this drawing. -/
theorem layered_places :
    (∀ (nodes : List α) (edges : List (α × α)), (ofLists nodes edges).IsSound) ∧
      ∀ g : Digraph α, g.IsSound → g.Acyclic →
        ∃ level top position, g.IsLayering level top position ∧
          (∀ v ∈ g.nodes,
            (position v).1 ∈ Set.Icc (0 : ℚ) 1 ∧ (position v).2 ∈ Set.Icc (0 : ℚ) 1) ∧
          (∀ u v, g.Adj u v → (position u).2 < (position v).2) ∧
          (∀ u ∈ g.nodes, ∀ v ∈ g.nodes, position u = position v → u = v) ∧
          (∀ order, g.IsOrder order → g.layered order = order.map fun v => (v, position v)) ∧
          ∃ order, g.IsOrder order ∧ g.points? .layers =
            some (order.map fun v => (v, .exact (position v).1 (position v).2)) := by
  refine ⟨isSound_ofLists, fun g hg hacyclic => ?_⟩
  obtain ⟨order, hsome, horder⟩ := LawfulLibrary.exists_order hg hacyclic
  obtain ⟨level, top, position, hlayering, hsame⟩ := exists_layering hg horder
  have hlayered : ∀ order, g.IsOrder order → g.layered order = order.map fun v => (v, position v) :=
    fun order horder => hsame g order rfl (fun _ _ => Iff.rfl) horder
  refine ⟨level, top, position, hlayering, fun v => hlayering.mem_unit hg,
    fun u v => hlayering.lt_of_adj hg, fun u hu v hv => hlayering.injective hg hu hv, hlayered,
    order, horder, ?_⟩
  rw [points?, hsome, Option.map_some, hlayered order horder, List.map_map]
  rfl

/-- A graph with an edge that is shorter than another path between its ends. -/
theorem layered_places_detour :
    ∃ g : Digraph ℕ, g = ofLists [3, 1] [(1, 2), (2, 3), (1, 3), (0, 3)] ∧ g.IsSound ∧
      g.Acyclic ∧ ∃ level top position, g.IsLayering level top position ∧
        (∀ v ∈ g.nodes,
          (position v).1 ∈ Set.Icc (0 : ℚ) 1 ∧ (position v).2 ∈ Set.Icc (0 : ℚ) 1) ∧
        (∀ u v, g.Adj u v → (position u).2 < (position v).2) ∧
        (∀ u ∈ g.nodes, ∀ v ∈ g.nodes, position u = position v → u = v) ∧
        (∀ order, g.IsOrder order → g.layered order = order.map fun v => (v, position v)) ∧
        ∃ order, g.IsOrder order ∧ g.points? .layers =
          some (order.map fun v => (v, .exact (position v).1 (position v).2)) :=
  have hsound := layered_places.1 [3, 1] [(1, 2), (2, 3), (1, 3), (0, 3)]
  have horder : (ofLists [3, 1] [(1, 2), (2, 3), (1, 3), (0, 3)]).IsOrder [1, 0, 2, 3] :=
    ⟨by decide, fun u v => (by decide : ∀ e ∈
      (ofLists [3, 1] [(1, 2), (2, 3), (1, 3), (0, 3)]).edges,
        [1, 0, 2, 3].idxOf e.1 < [1, 0, 2, 3].idxOf e.2) (u, v)⟩
  ⟨_, rfl, hsound, horder.acyclic, layered_places.2 _ hsound horder.acyclic⟩

example : (ofLists [3, 1] [(1, 2), (2, 3), (1, 3), (0, 3)]).layered [1, 0, 2, 3] =
    [(1, 1, 0), (0, 0, 0), (2, 1 / 2, 1 / 2), (3, 1 / 2, 1)] := by
  decide +kernel

end Propositional.Digraph
