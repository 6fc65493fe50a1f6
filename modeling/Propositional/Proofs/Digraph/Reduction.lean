/-
The reduction of an acyclic graph keeps its paths, with as few edges as can be.

* `Digraph.mem_descendants_iff`: what is found to be reachable from a node is what paths
  lead to.
* `Digraph.hasDetour_iff`: an edge has a detour if a path leads to its end from another
  node that its source has an edge to.
* `Digraph.IsReduction`: the same nodes and the same paths, and no edge that any other
  graph with these paths could do without; `Digraph.IsReduction.adj_iff` says that there
  is only one such set of edges.
* `Digraph.reduction?_spec`: the reduction that is computed is one, and there is none in a
  graph with a cycle.
* `Digraph.LawfulLibrary`: the libraries of which no more is assumed than what is said of them.
-/
import Propositional.Digraph.Reduction
import Propositional.Proofs.Digraph.Order
import Propositional.Proofs.Entries

namespace Propositional.Digraph

variable {α : Type} [DecidableEq α] {g r : Digraph α} {u v w : α} {order : List α}

/-! ### What is reachable -/

lemma map_fst_descendants (g : Digraph α) (order : List α) :
    (g.descendants order).map Prod.fst = order := by
  induction order with
  | nil => rfl
  | cons u later ih => rw [descendants, List.map_cons, ih]

lemma mem_descendants_iff (hg : g.IsSound) (horder : g.IsOrder order) {before later : List α}
    (hsplit : order = before ++ later) {entry : α × List α} (h : entry ∈ g.descendants later)
    (v : α) : v ∈ entry.2 ↔ g.Reaches entry.1 v := by
  induction later generalizing before entry v with
  | nil => cases h
  | cons u later ih =>
      have hsplit' : order = (before ++ [u]) ++ later := by rw [hsplit, List.append_assoc]; rfl
      have hafter : ∀ {v}, g.Reaches u v → v ∈ later := horder.mem_after hg hsplit
      rw [descendants] at h
      rcases List.mem_cons.mp h with rfl | h
      · simp only [List.mem_filter, Bool.or_eq_true, List.any_eq_true, Bool.and_eq_true,
          List.contains_iff_mem, mem_successors]
        constructor
        · rintro ⟨-, hedge | ⟨entry, hentry, hedge, hv⟩⟩
          · exact .single hedge
          · exact .head hedge ((ih hsplit' hentry v).mp hv)
        · intro hpath
          refine ⟨hafter hpath, ?_⟩
          obtain ⟨w, hedge, rfl | hw⟩ := hpath.cases_head
          · exact .inl hedge
          · have hmem : w ∈ (g.descendants later).map Prod.fst := by
              rw [map_fst_descendants]
              exact hafter (.single hedge)
            obtain ⟨entry, hentry, rfl⟩ := List.mem_map.mp hmem
            exact .inr ⟨entry, hentry, hedge, (ih hsplit' hentry v).mpr hw⟩
      · exact ih hsplit' h v

/-- An edge has a detour if a path leads to its end from a node that its source has an edge
to. -/
lemma hasDetour_iff (hg : g.IsSound) (horder : g.IsOrder order) :
    g.hasDetour (g.descendants order) u v = true ↔ ∃ w, g.Adj u w ∧ g.Reaches w v := by
  have hlookup : ∀ w ∈ g.nodes, ∃ reached, (g.descendants order).lookup w = some reached ∧
      (v ∈ reached ↔ g.Reaches w v) := by
    intro w hw
    have hmem : w ∈ (g.descendants order).map Prod.fst := by
      rw [map_fst_descendants]
      exact horder.perm.mem_iff.mpr hw
    obtain ⟨reached, hreached, hpair⟩ := Entries.exists_lookup hmem
    exact ⟨reached, hreached, mem_descendants_iff hg horder (List.nil_append _).symm hpair v⟩
  rw [hasDetour, List.any_eq_true]
  refine exists_congr fun w => ?_
  rw [mem_successors]
  refine and_congr_right fun hedge => ?_
  obtain ⟨reached, hreached, hiff⟩ := hlookup w (hg.ends u w hedge).2
  rw [hreached, Option.any_some, List.contains_iff_mem, hiff]

/-! ### Reductions -/

/-- A graph with the same nodes and the same paths as another one, and no edge that one
could do without: every relation with these paths has it. -/
structure IsReduction (g r : Digraph α) : Prop where
  nodes : r.nodes = g.nodes
  reaches : ∀ u v, r.Reaches u v ↔ g.Reaches u v
  least : ∀ E : α → α → Prop, (∀ u v, Relation.TransGen E u v ↔ g.Reaches u v) →
    ∀ u v, r.Adj u v → E u v

omit [DecidableEq α] in
/-- A graph has one reduction only. -/
lemma IsReduction.adj_iff {r' : Digraph α} (h : g.IsReduction r) (h' : g.IsReduction r') :
    r.Adj u v ↔ r'.Adj u v :=
  ⟨h.least r'.Adj h'.reaches u v, h'.least r.Adj h.reaches u v⟩

omit [DecidableEq α] in
lemma IsReduction.isSound (h : g.IsReduction r) (hg : g.IsSound) : r.IsSound := by
  refine ⟨h.nodes ▸ hg.nodup, fun u v hedge => ?_⟩
  have hpath : g.Reaches u v := (h.reaches u v).mp (.single hedge)
  obtain ⟨w, hw, -⟩ := hpath.cases_head
  rw [h.nodes]
  exact ⟨(hg.ends u w hw).1, hg.mem_of_reaches hpath⟩

omit [DecidableEq α] in
lemma IsReduction.acyclic (h : g.IsReduction r) (hg : g.Acyclic) : r.Acyclic :=
  fun v hpath => hg v ((h.reaches v v).mp hpath)

/-- The edges without a detour have the same paths as all edges. -/
lemma transGen_iff_of_detour (horder : g.IsOrder order) {E : α → α → Prop}
    (hE : ∀ u v, E u v ↔ g.Adj u v ∧ ¬ ∃ w, g.Adj u w ∧ g.Reaches w v) (u v : α) :
    Relation.TransGen E u v ↔ g.Reaches u v := by
  refine ⟨fun h => Relation.TransGen.mono (fun u v h => ((hE u v).mp h).1) _ _ h, fun h => ?_⟩
  -- induction on how far the path goes in the order, since a detour goes in shorter steps
  generalize hlength : order.idxOf v - order.idxOf u = n
  induction n using Nat.strong_induction_on generalizing u v with
  | _ n ih =>
      have hsplit : ∀ w, g.Reaches u w → g.Reaches w v → Relation.TransGen E u v := by
        intro w hu hv
        have := horder.idxOf_lt hu
        have := horder.idxOf_lt hv
        exact (ih _ (by omega) u w hu rfl).trans (ih _ (by omega) w v hv rfl)
      obtain ⟨w, hedge, rfl | hw⟩ := h.cases_head
      · by_cases hdetour : ∃ x, g.Adj u x ∧ g.Reaches x w
        · obtain ⟨x, hx, hpath⟩ := hdetour
          exact hsplit x (.single hx) hpath
        · exact .single ((hE u w).mpr ⟨hedge, hdetour⟩)
      · exact hsplit w (.single hedge) hw

omit [DecidableEq α] in
/-- An edge without a detour is in every relation with the same paths. -/
lemma of_not_detour {E : α → α → Prop} (hE : ∀ u v, Relation.TransGen E u v ↔ g.Reaches u v)
    (hedge : g.Adj u v) (hdetour : ¬ ∃ w, g.Adj u w ∧ g.Reaches w v) : E u v := by
  have hpath : Relation.TransGen E u v := (hE u v).mpr (.single hedge)
  obtain ⟨w, hw, hrest⟩ := Relation.TransGen.head'_iff.mp hpath
  rcases Relation.reflTransGen_iff_eq_or_transGen.mp hrest with rfl | hrest
  · exact hw
  · -- a longer path of the relation goes by way of a detour
    refine absurd ?_ hdetour
    have hwv : g.Reaches w v := (hE w v).mp hrest
    obtain ⟨x, hx, rfl | hxw⟩ := Reaches.cases_head ((hE u w).mp (.single hw))
    · exact ⟨x, hx, hwv⟩
    · exact ⟨x, hx, Relation.TransGen.trans hxw hwv⟩

/-- What the reduction of a graph is: it is found exactly if there is no cycle, and then it
has the edges without a detour, as few as can be. -/
theorem reduction?_spec (hg : g.IsSound) :
    (g.Acyclic ↔ ∃ r, g.reduction? = some r) ∧
      ∀ r, g.reduction? = some r → g.IsReduction r ∧ r.edges.Sublist g.edges ∧
        ∀ u v, r.Adj u v ↔ g.Adj u v ∧ ¬ ∃ w, g.Adj u w ∧ g.Reaches w v := by
  obtain ⟨horder, hacyclic⟩ := order?_spec hg
  refine ⟨?_, fun r hr => ?_⟩
  · rw [hacyclic, reduction?]
    constructor
    · rintro ⟨order, h⟩
      exact ⟨_, by rw [h]; rfl⟩
    · rintro ⟨r, h⟩
      obtain ⟨order, h, -⟩ := Option.map_eq_some_iff.mp h
      exact ⟨order, h⟩
  · obtain ⟨order, ho, rfl⟩ := Option.map_eq_some_iff.mp hr
    have hadj : ∀ u v, (Digraph.mk g.nodes
        (g.edges.filter fun e => !g.hasDetour (g.descendants order) e.1 e.2)).Adj u v ↔
          g.Adj u v ∧ ¬ ∃ w, g.Adj u w ∧ g.Reaches w v := by
      intro u v
      rw [Adj, List.mem_filter, Bool.not_eq_true', ← Bool.not_eq_true,
        hasDetour_iff hg (horder order ho)]
      rfl
    refine ⟨⟨rfl, transGen_iff_of_detour (horder order ho) hadj, fun E hE u v h => ?_⟩,
      List.filter_sublist, hadj⟩
    exact of_not_detour hE ((hadj u v).mp h).1 ((hadj u v).mp h).2

/-- The edges of any reduction are those without a detour. -/
lemma IsReduction.adj_iff_detour (h : g.IsReduction r) (hg : g.IsSound) (hacyclic : g.Acyclic) :
    r.Adj u v ↔ g.Adj u v ∧ ¬ ∃ w, g.Adj u w ∧ g.Reaches w v := by
  obtain ⟨hfound, hspec⟩ := reduction?_spec hg
  obtain ⟨s, hs⟩ := hfound.mp hacyclic
  obtain ⟨hreduction, -, hadj⟩ := hspec s hs
  rw [h.adj_iff hreduction, hadj]

/-! ### Libraries -/

/-- A library that keeps to what is said of it.  What it does with a cycle is left open, and so
are the order of nodes that no path joins and the order in which edges are listed. -/
class LawfulLibrary (α : Type) [DecidableEq α] [Library α] : Prop where
  exists_order : ∀ {g : Digraph α}, g.IsSound → g.Acyclic →
    ∃ order, Library.sort? g = some order ∧ g.IsOrder order
  exists_reduction : ∀ {g : Digraph α}, g.IsSound → g.Acyclic →
    ∃ r, Library.reduce? g = some r ∧ g.IsReduction r ∧ (g.edges.Nodup → r.edges.Nodup)

instance : LawfulLibrary α where
  exists_order hg hacyclic := by
    obtain ⟨horders, hfound⟩ := order?_spec hg
    obtain ⟨order, horder⟩ := hfound.mp hacyclic
    exact ⟨order, horder, horders order horder⟩
  exists_reduction hg hacyclic := by
    obtain ⟨hfound, hspec⟩ := reduction?_spec hg
    obtain ⟨r, hr⟩ := hfound.mp hacyclic
    obtain ⟨hreduction, hsublist, -⟩ := hspec r hr
    exact ⟨r, hr, hreduction, fun hnodup => hnodup.sublist hsublist⟩

end Propositional.Digraph
