/-
Paths in a graph, and the order of its nodes.

* `Digraph.Adj`, `Digraph.Reaches`, `Digraph.Acyclic`: edges, paths of one edge or more,
  and graphs in which no path leads back to where it starts.
* `Digraph.IsSound`: the nodes are listed once and the edges lie between them, as in every
  graph that is built from lists (`Digraph.isSound_ofLists`).
* `Digraph.IsOrder`: the nodes in an order in which every edge goes forwards;
  `Digraph.IsOrder.acyclic` says that there is none in a graph with a cycle.
* `Digraph.order?_spec`: the order that is computed is one, and it is found exactly in an
  acyclic graph.
-/
import Mathlib.Tactic
import Mathlib.Data.List.Perm.Subperm
import Mathlib.Order.WellFoundedSet
import Propositional.Digraph

namespace Propositional.Digraph

variable {α : Type} {g : Digraph α} {u v : α}

/-! ### Paths -/

/-- There is an edge from a node to another. -/
def Adj (g : Digraph α) (u v : α) : Prop := (u, v) ∈ g.edges

/-- A path of one edge or more leads from a node to another. -/
def Reaches (g : Digraph α) : α → α → Prop := Relation.TransGen g.Adj

/-- No path leads back to where it starts. -/
def Acyclic (g : Digraph α) : Prop := ∀ v, ¬ g.Reaches v v

/-- The nodes are listed once, and the edges lie between them. -/
structure IsSound (g : Digraph α) : Prop where
  nodup : g.nodes.Nodup
  ends : ∀ u v, g.Adj u v → u ∈ g.nodes ∧ v ∈ g.nodes

/-- A path is an edge, or it goes on from the end of its first edge. -/
lemma Reaches.cases_head (h : g.Reaches u v) : ∃ w, g.Adj u w ∧ (w = v ∨ g.Reaches w v) := by
  rcases Relation.TransGen.head'_iff.mp h with ⟨w, hw, hpath⟩
  rcases Relation.reflTransGen_iff_eq_or_transGen.mp hpath with rfl | hpath
  · exact ⟨_, hw, .inl rfl⟩
  · exact ⟨w, hw, .inr hpath⟩

/-- Where two edges in a row are replaced by one, so are paths. -/
lemma reaches_iff_of_trans (h : ∀ u v w, g.Adj u v → g.Adj v w → g.Adj u w) :
    g.Reaches u v ↔ g.Adj u v := by
  have htrans : IsTrans α g.Adj := ⟨h⟩
  rw [Reaches, Relation.transGen_eq_self]

lemma IsSound.mem_of_reaches (h : g.IsSound) (hpath : g.Reaches u v) : v ∈ g.nodes := by
  cases hpath with
  | single hedge => exact (h.ends _ _ hedge).2
  | tail _ hedge => exact (h.ends _ _ hedge).2

lemma nodup_edges_ofRelation {nodes : List α} {r : α → α → Bool} (h : nodes.Nodup) :
    (ofRelation nodes r).edges.Nodup := by
  rw [ofRelation, List.nodup_flatMap]
  refine ⟨fun u _ => (h.filter _).map (Prod.mk_right_injective u), h.imp fun {u v} hne => ?_⟩
  -- edges from different nodes differ
  rw [Function.onFun, List.disjoint_left]
  intro e hu hv
  obtain ⟨_, -, rfl⟩ := List.mem_map.mp hu
  obtain ⟨_, -, heq⟩ := List.mem_map.mp hv
  exact hne (congrArg Prod.fst heq).symm

variable [DecidableEq α]

lemma IsSound.addNode (h : g.IsSound) (v : α) : (g.addNode v).IsSound := by
  rw [Digraph.addNode]
  split
  · exact h
  · next hv =>
      refine ⟨?_, fun u w hedge => ?_⟩
      · rw [← List.concat_eq_append]
        exact h.nodup.concat hv
      · obtain ⟨hu, hw⟩ := h.ends u w hedge
        exact ⟨List.mem_append_left _ hu, List.mem_append_left _ hw⟩

lemma mem_nodes_addNode : u ∈ (g.addNode v).nodes ↔ u ∈ g.nodes ∨ u = v := by
  rw [Digraph.addNode]
  split
  · next hv => exact ⟨.inl, fun h => h.elim id fun heq => heq ▸ hv⟩
  · simp

lemma IsSound.addEdge (h : g.IsSound) (e : α × α) : (g.addEdge e).IsSound := by
  have hnodes : ((g.addNode e.1).addNode e.2).IsSound := (h.addNode e.1).addNode e.2
  rw [Digraph.addEdge]
  split
  · exact hnodes
  · refine ⟨hnodes.nodup, fun u v hedge => ?_⟩
    rcases List.mem_append.mp hedge with hedge | hedge
    · exact hnodes.ends u v hedge
    · obtain rfl := List.mem_singleton.mp hedge
      exact ⟨mem_nodes_addNode.mpr (.inl (mem_nodes_addNode.mpr (.inr rfl))),
        mem_nodes_addNode.mpr (.inr rfl)⟩

lemma isSound_ofLists (nodes : List α) (edges : List (α × α)) : (ofLists nodes edges).IsSound := by
  have hnodes : (nodes.foldl Digraph.addNode {}).IsSound := by
    induction nodes using List.reverseRecOn with
    | nil => exact ⟨List.nodup_nil, fun u v hedge => absurd hedge List.not_mem_nil⟩
    | append_singleton nodes v ih =>
        rw [List.foldl_append]
        exact ih.addNode v
  rw [ofLists]
  induction edges using List.reverseRecOn with
  | nil => exact hnodes
  | append_singleton edges e ih =>
      rw [List.foldl_append]
      exact ih.addEdge e

/-! ### Orders -/

/-- The nodes of a graph in an order in which every edge goes forwards. -/
structure IsOrder (g : Digraph α) (order : List α) : Prop where
  perm : order.Perm g.nodes
  forward : ∀ u v, g.Adj u v → order.idxOf u < order.idxOf v

namespace IsOrder

variable {order before after : List α}

lemma idxOf_lt (h : g.IsOrder order) (hpath : g.Reaches u v) : order.idxOf u < order.idxOf v := by
  induction hpath with
  | single hedge => exact h.forward _ _ hedge
  | tail _ hedge ih => exact ih.trans (h.forward _ _ hedge)

lemma acyclic (h : g.IsOrder order) : g.Acyclic := fun _ hpath =>
  lt_irrefl _ (h.idxOf_lt hpath)

lemma mem_after (hg : g.IsSound) (h : g.IsOrder order) (hsplit : order = before ++ u :: after)
    (hpath : g.Reaches u v) : v ∈ after := by
  have hmem : v ∈ order := h.perm.mem_iff.mpr (hg.mem_of_reaches hpath)
  have hlt := h.idxOf_lt hpath
  have hnodup : order.Nodup := h.perm.nodup_iff.mpr hg.nodup
  rw [hsplit] at hmem hlt hnodup
  have hu : u ∉ before := fun hu =>
    (List.nodup_append.mp hnodup).2.2 u hu u List.mem_cons_self rfl
  rw [List.idxOf_append_of_notMem hu, List.idxOf_cons_self, Nat.add_zero] at hlt
  rcases List.mem_append.mp hmem with hv | hv
  · -- a node before `u` has a smaller index
    rw [List.idxOf_append_of_mem hv] at hlt
    exact absurd (List.idxOf_lt_length_of_mem hv) hlt.not_gt
  · refine (List.mem_cons.mp hv).resolve_left ?_
    rintro rfl
    rw [List.idxOf_append_of_notMem hu, List.idxOf_cons_self] at hlt
    omega

lemma mem_before (h : g.IsOrder order) (hsplit : order = before ++ v :: after) (hedge : g.Adj u v) :
    u ∈ before := by
  have hlt := h.forward u v hedge
  rw [hsplit] at hlt
  have hle : (before ++ v :: after).idxOf v ≤ before.length := by
    by_cases hv : v ∈ before
    · rw [List.idxOf_append_of_mem hv]
      exact (List.idxOf_lt_length_of_mem hv).le
    · rw [List.idxOf_append_of_notMem hv, List.idxOf_cons_self, Nat.add_zero]
  by_contra hu
  rw [List.idxOf_append_of_notMem hu] at hlt
  omega

end IsOrder

/-! ### The order that is computed -/

/-- In a list of nodes that is not empty some node is the end of no edge, where the edges
lie between these nodes and make no cycle. -/
lemma exists_source {nodes : List α} {edges : List (α × α)} (hne : nodes ≠ [])
    (hends : ∀ e ∈ edges, e.1 ∈ nodes ∧ e.2 ∈ nodes)
    (hacyclic : ∀ v, ¬ Relation.TransGen (fun u v => (u, v) ∈ edges) v v) :
    ∃ v ∈ nodes, ∀ e ∈ edges, e.2 ≠ v := by
  by_contra hnone
  push Not at hnone
  have hstrict : IsStrictOrder α (Relation.TransGen fun u v => (u, v) ∈ edges) :=
    { irrefl := hacyclic, trans := fun _ _ _ => Relation.TransGen.trans }
  obtain ⟨v, hv⟩ := List.exists_mem_of_ne_nil nodes hne
  -- going back along edges would not end
  have hwf : {v | v ∈ nodes}.WellFoundedOn (Relation.TransGen fun u v => (u, v) ∈ edges) :=
    (List.finite_toSet nodes).wellFoundedOn
  refine hwf.induction (P := fun _ => False) hv fun y hy ih => ?_
  obtain ⟨e, he, rfl⟩ := hnone y hy
  exact ih e.1 (hends e he).1 (.single he)

/-- What lies between nodes of a list goes on doing so when one that no edge points to is
taken, with the edges from it. -/
lemma ends_erase {nodes : List α} {edges : List (α × α)}
    (hends : ∀ e ∈ edges, e.1 ∈ nodes ∧ e.2 ∈ nodes) (hsource : ∀ e ∈ edges, e.2 ≠ v) :
    ∀ e ∈ edges.filter (fun e => e.1 ≠ v), e.1 ∈ nodes.erase v ∧ e.2 ∈ nodes.erase v := by
  intro e he
  rw [List.mem_filter, decide_eq_true_iff] at he
  exact ⟨(List.mem_erase_of_ne he.2).mpr (hends e he.1).1,
    (List.mem_erase_of_ne (hsource e he.1)).mpr (hends e he.1).2⟩

lemma peel_succ {nodes : List α} (hne : nodes ≠ []) (steps : ℕ) (edges : List (α × α)) :
    peel (steps + 1) nodes edges = (nodes.find? fun v => edges.all fun e => e.2 ≠ v).bind
      fun v => (peel steps (nodes.erase v) (edges.filter fun e => e.1 ≠ v)).map (v :: ·) := by
  rw [peel]
  · cases nodes.find? fun v => edges.all fun e => e.2 ≠ v <;> rfl
  · exact hne

lemma peel_nil (steps : ℕ) (edges : List (α × α)) : peel steps [] edges = some [] := by
  cases steps <;> rfl

/-- The first node that is taken, with the order of the others. -/
lemma peel_cases {steps : ℕ} {nodes : List α} {edges : List (α × α)} {order : List α}
    (h : peel steps nodes edges = some order) :
    (nodes = [] ∧ order = []) ∨ ∃ steps' v rest, order = v :: rest ∧ v ∈ nodes ∧
      (∀ e ∈ edges, e.2 ≠ v) ∧
        peel steps' (nodes.erase v) (edges.filter fun e => e.1 ≠ v) = some rest := by
  rcases eq_or_ne nodes [] with rfl | hne
  · rw [peel_nil] at h
    exact .inl ⟨rfl, (Option.some.inj h).symm⟩
  · cases steps with
    | zero =>
        obtain ⟨v, nodes, rfl⟩ := List.exists_cons_of_ne_nil hne
        cases h
    | succ steps =>
        rw [peel_succ hne] at h
        obtain ⟨v, hfind, h⟩ := Option.bind_eq_some_iff.mp h
        obtain ⟨rest, hpeel, hcons⟩ := Option.map_eq_some_iff.mp h
        exact .inr ⟨steps, v, rest, hcons.symm, List.mem_of_find?_eq_some hfind,
          by simpa using List.find?_some hfind, hpeel⟩

/-- Taking nodes one by one gives all of them, in an order in which every edge goes
forwards. -/
lemma peel_eq_some {steps : ℕ} {nodes : List α} {edges : List (α × α)} {order : List α}
    (hends : ∀ e ∈ edges, e.1 ∈ nodes ∧ e.2 ∈ nodes) (h : peel steps nodes edges = some order) :
    order.Perm nodes ∧ ∀ e ∈ edges, order.idxOf e.1 < order.idxOf e.2 := by
  induction order generalizing steps nodes edges with
  | nil =>
      rcases peel_cases h with ⟨rfl, -⟩ | ⟨_, _, _, hnil, -⟩
      · exact ⟨.nil, fun e he => absurd (hends e he).1 List.not_mem_nil⟩
      · cases hnil
  | cons v order ih =>
      rcases peel_cases h with ⟨-, hcons⟩ | ⟨steps', v', rest, hcons, hmem, hsource, hrest⟩
      · cases hcons
      obtain ⟨rfl, rfl⟩ := List.cons.inj hcons
      obtain ⟨hperm, hforward⟩ := ih (ends_erase hends hsource) hrest
      refine ⟨(hperm.cons v).trans (List.perm_cons_erase hmem).symm, fun e he => ?_⟩
      rw [List.idxOf_cons_ne _ (hsource e he).symm]
      by_cases hv : e.1 = v
      · rw [hv, List.idxOf_cons_self]
        exact Nat.succ_pos _
      · rw [List.idxOf_cons_ne _ (Ne.symm hv)]
        refine Nat.succ_lt_succ (hforward e ?_)
        rw [List.mem_filter, decide_eq_true_iff]
        exact ⟨he, hv⟩

/-- Where there is no cycle there is always a node to take. -/
lemma exists_peel {steps : ℕ} {nodes : List α} {edges : List (α × α)}
    (hsteps : nodes.length ≤ steps) (hends : ∀ e ∈ edges, e.1 ∈ nodes ∧ e.2 ∈ nodes)
    (hacyclic : ∀ v, ¬ Relation.TransGen (fun u v => (u, v) ∈ edges) v v) :
    ∃ order, peel steps nodes edges = some order := by
  induction steps generalizing nodes edges with
  | zero => exact ⟨[], by rw [List.eq_nil_of_length_eq_zero (Nat.le_zero.mp hsteps), peel_nil]⟩
  | succ steps ih =>
      rcases eq_or_ne nodes [] with rfl | hne
      · exact ⟨[], peel_nil _ _⟩
      rw [peel_succ hne]
      cases hfind : nodes.find? fun v => edges.all fun e => e.2 ≠ v with
      | none =>
          obtain ⟨v, hv, hsource⟩ := exists_source hne hends hacyclic
          have hnot := List.find?_eq_none.mp hfind v hv
          simp only [List.all_eq_true, decide_eq_true_eq] at hnot
          exact absurd hsource hnot
      | some v =>
          have hmem := List.mem_of_find?_eq_some hfind
          have hsource : ∀ e ∈ edges, e.2 ≠ v := by simpa using List.find?_some hfind
          have hlength : (nodes.erase v).length ≤ steps := by
            rw [List.length_erase_of_mem hmem]
            exact Nat.sub_le_of_le_add hsteps
          obtain ⟨order, horder⟩ := ih hlength (ends_erase hends hsource) fun u hu =>
            hacyclic u (Relation.TransGen.mono (fun _ _ h => List.mem_of_mem_filter h) _ _ hu)
          exact ⟨v :: order, by rw [Option.bind_some, horder]; rfl⟩

/-- The order of a graph is found exactly if the graph has no cycle, and every edge goes
forwards in it. -/
lemma order?_spec (hg : g.IsSound) :
    (∀ order, g.order? = some order → g.IsOrder order) ∧
      (g.Acyclic ↔ ∃ order, g.order? = some order) := by
  have hends : ∀ e ∈ g.edges, e.1 ∈ g.nodes ∧ e.2 ∈ g.nodes := fun e he => hg.ends e.1 e.2 he
  have horder : ∀ order, g.order? = some order → g.IsOrder order := by
    intro order h
    obtain ⟨hperm, hforward⟩ := peel_eq_some hends h
    exact ⟨hperm, fun u v huv => hforward (u, v) huv⟩
  refine ⟨horder, fun h => exists_peel le_rfl hends h, ?_⟩
  rintro ⟨order, h⟩
  exact (horder order h).acyclic

end Propositional.Digraph
