/-
The depths of the nodes of an acyclic graph.

* `Digraph.Walk`, `Digraph.IsDepth`: walks of a number of edges, and the length of the
  longest walk that ends at a node.
* `Digraph.IsDepth.congr`: graphs with the same paths have the same depths, although one may
  have fewer edges.
* `Digraph.mem_levels_iff`: the levels that are found along an order are the depths, so they
  do not depend on the order (`Digraph.levels_perm`).
-/
import Propositional.Digraph.Layers
import Propositional.Proofs.Digraph.Order
import Propositional.Proofs.Entries

namespace Propositional.Digraph

/-! ### The depth of a node -/

section Depth

variable {α : Type} {g : Digraph α} {u v : α} {n : ℕ}

/-- A walk along a number of edges. -/
inductive Walk (g : Digraph α) (u : α) : ℕ → α → Prop
  | nil : Walk g u 0 u
  | step {n : ℕ} {v w : α} (h : Walk g u n v) (hedge : g.Adj v w) : Walk g u (n + 1) w

/-- The length of the longest walk that ends at a node. -/
structure IsDepth (g : Digraph α) (v : α) (n : ℕ) : Prop where
  attained : ∃ u, g.Walk u n v
  longest : ∀ u m, g.Walk u m v → m ≤ n

lemma IsDepth.unique {m : ℕ} (h : g.IsDepth v n) (h' : g.IsDepth v m) : n = m := by
  obtain ⟨u, hu⟩ := h.attained
  obtain ⟨w, hw⟩ := h'.attained
  exact le_antisymm (h'.longest u n hu) (h.longest w m hw)

lemma Walk.trans {w : α} {m : ℕ} (h : g.Walk u n v) (h' : g.Walk v m w) : g.Walk u (n + m) w := by
  induction h' with
  | nil => exact h
  | step _ hedge ih => exact ih.step hedge

lemma Reaches.exists_walk (h : g.Reaches u v) : ∃ n, g.Walk u (n + 1) v := by
  induction h with
  | single hedge => exact ⟨0, Walk.nil.step hedge⟩
  | tail _ hedge ih =>
      obtain ⟨n, hn⟩ := ih
      exact ⟨n + 1, hn.step hedge⟩

/-- Where paths replace the edges, a walk becomes one that is no shorter. -/
lemma Walk.exists_le {g' : Digraph α} (hreach : ∀ u v, g.Adj u v → g'.Reaches u v)
    (h : g.Walk u n v) : ∃ m, n ≤ m ∧ g'.Walk u m v := by
  induction h with
  | nil => exact ⟨0, le_rfl, .nil⟩
  | step _ hedge ih =>
      obtain ⟨m, hle, hm⟩ := ih
      obtain ⟨k, hk⟩ := (hreach _ _ hedge).exists_walk
      exact ⟨m + (k + 1), by omega, hm.trans hk⟩

/-- The depth only depends on the paths. -/
lemma IsDepth.congr {g' : Digraph α} (hreach : ∀ u v, g.Reaches u v ↔ g'.Reaches u v)
    (h : g.IsDepth v n) : g'.IsDepth v n := by
  have hlongest : ∀ u m, g'.Walk u m v → m ≤ n := by
    intro u m hm
    obtain ⟨k, hmk, hk⟩ := hm.exists_le fun u v hedge => (hreach u v).mpr (.single hedge)
    exact hmk.trans (h.longest u k hk)
  obtain ⟨u, hu⟩ := h.attained
  obtain ⟨m, hnm, hm⟩ := hu.exists_le fun u v hedge => (hreach u v).mp (.single hedge)
  obtain rfl : m = n := le_antisymm (hlongest u m hm) hnm
  exact ⟨⟨u, hm⟩, hlongest⟩

lemma IsDepth.lt_of_adj {m : ℕ} (hu : g.IsDepth u m) (hv : g.IsDepth v n) (hedge : g.Adj u v) :
    m < n := by
  obtain ⟨w, hw⟩ := hu.attained
  exact hv.longest w (m + 1) (hw.step hedge)

/-- Some node just before one that is not a source is less deep by one. -/
lemma IsDepth.exists_predecessor (h : g.IsDepth v (n + 1))
    (hdepth : ∀ u, g.Adj u v → ∃ m, g.IsDepth u m) : ∃ u, g.Adj u v ∧ g.IsDepth u n := by
  obtain ⟨w, hw⟩ := h.attained
  cases hw with
  | @step _ u _ hwalk hedge =>
      obtain ⟨m, hm⟩ := hdepth u hedge
      have hle : n ≤ m := hm.longest w n hwalk
      have hlt : m < n + 1 := hm.lt_of_adj h hedge
      obtain rfl : m = n := by omega
      exact ⟨u, hedge, hm⟩

lemma IsDepth.eq_zero (h : g.IsDepth v n) (hedges : g.edges = []) : n = 0 := by
  obtain ⟨u, hu⟩ := h.attained
  cases hu with
  | nil => rfl
  | step _ hedge =>
      rw [Adj, hedges] at hedge
      cases hedge

lemma exists_level {level : α → ℕ} (hg : g.IsSound) (hdepth : ∀ v ∈ g.nodes, g.IsDepth v (level v))
    (hv : v ∈ g.nodes) (hn : n ≤ level v) : ∃ u ∈ g.nodes, level u = n := by
  induction hm : level v generalizing v with
  | zero => exact ⟨v, hv, by omega⟩
  | succ m ih =>
      by_cases heq : n = level v
      · exact ⟨v, hv, heq.symm⟩
      · have hends : ∀ u, g.Adj u v → u ∈ g.nodes := fun u hedge => (hg.ends u v hedge).1
        obtain ⟨u, hedge, hu⟩ := (hm ▸ hdepth v hv).exists_predecessor
          fun u hedge => ⟨_, hdepth u (hends u hedge)⟩
        have hlevel : level u = m := (hdepth u (hends u hedge)).unique hu
        exact ih (hends u hedge) (by omega) hlevel

/-- The depth of a node from those of its predecessors. -/
lemma isDepth_of_predecessors (hdepth : ∀ u, g.Adj u v → ∃ d, g.IsDepth u d ∧ d + 1 ≤ n)
    (hattained : n = 0 ∨ ∃ u d, g.Adj u v ∧ g.IsDepth u d ∧ n = d + 1) : g.IsDepth v n := by
  constructor
  · rcases hattained with rfl | ⟨u, d, hedge, hd, rfl⟩
    · exact ⟨v, .nil⟩
    · obtain ⟨w, hw⟩ := hd.attained
      exact ⟨w, hw.step hedge⟩
  · intro w m hm
    cases hm with
    | nil => exact Nat.zero_le n
    | step hwalk hedge =>
        obtain ⟨d, hd, hle⟩ := hdepth _ hedge
        exact (Nat.succ_le_succ (hd.longest w _ hwalk)).trans hle

end Depth

/-! ### Levels -/

section Levels

variable {α : Type} [DecidableEq α] {g : Digraph α} {order : List α} {v : α} {n : ℕ}

lemma map_fst_levelsAfter (g : Digraph α) (known : List (α × ℕ)) (order : List α) :
    (g.levelsAfter known order).map Prod.fst = known.map Prod.fst ++ order := by
  induction order generalizing known with
  | nil => exact (List.append_nil _).symm
  | cons v order ih =>
      rw [levelsAfter, ih, List.map_append, List.append_assoc]
      rfl

lemma map_fst_levels (g : Digraph α) (order : List α) : (g.levels order).map Prod.fst = order :=
  map_fst_levelsAfter g [] order

omit [DecidableEq α] in
/-- The greatest value on a list, or the one to begin with. -/
lemma foldl_max_spec (f : α → ℕ) (l : List α) (a : ℕ) :
    a ≤ l.foldl (fun n u => max n (f u)) a ∧ (∀ u ∈ l, f u ≤ l.foldl (fun n u => max n (f u)) a) ∧
      (l.foldl (fun n u => max n (f u)) a = a ∨
        ∃ u ∈ l, l.foldl (fun n u => max n (f u)) a = f u) := by
  induction l generalizing a with
  | nil => exact ⟨le_rfl, fun u hu => absurd hu List.not_mem_nil, .inl rfl⟩
  | cons v l ih =>
      obtain ⟨hle, hall, hattained⟩ := ih (max a (f v))
      rw [List.foldl_cons, List.forall_mem_cons]
      refine ⟨(le_max_left _ _).trans hle, ⟨(le_max_right _ _).trans hle, hall⟩, ?_⟩
      rcases hattained with heq | ⟨u, hu, heq⟩
      · rcases max_choice a (f v) with hmax | hmax
        · exact .inl (heq.trans hmax)
        · exact .inr ⟨v, List.mem_cons_self, heq.trans hmax⟩
      · exact .inr ⟨u, List.mem_cons_of_mem v hu, heq⟩

omit [DecidableEq α] in
lemma height_spec (levels : List (α × ℕ)) :
    (∀ e ∈ levels, e.2 ≤ height levels) ∧ (levels ≠ [] → ∃ e ∈ levels, e.2 = height levels) := by
  obtain ⟨-, hall, hattained⟩ := foldl_max_spec Prod.snd levels 0
  refine ⟨hall, fun hne => ?_⟩
  rcases hattained with hzero | ⟨e, he, heq⟩
  · obtain ⟨e, he⟩ := List.exists_mem_of_ne_nil levels hne
    exact ⟨e, he, le_antisymm (hall e he) (hzero.le.trans (Nat.zero_le _))⟩
  · exact ⟨e, he, heq.symm⟩

lemma isDepth_levelAbove {known : List (α × ℕ)} (hknown : ∀ e ∈ known, g.IsDepth e.1 e.2)
    (hbefore : ∀ u, g.Adj u v → u ∈ known.map Prod.fst) :
    g.IsDepth v (levelAbove known (g.predecessors v)) := by
  have hlookup : ∀ u, g.Adj u v → g.IsDepth u ((known.lookup u).getD 0) := by
    intro u hu
    obtain ⟨d, hd, hmem⟩ := Entries.exists_lookup (hbefore u hu)
    rw [hd]
    exact hknown _ hmem
  obtain ⟨-, hall, hattained⟩ :=
    foldl_max_spec (fun u => (known.lookup u).getD 0 + 1) (g.predecessors v) 0
  refine isDepth_of_predecessors (fun u hu => ?_) ?_
  · exact ⟨_, hlookup u hu, hall u (mem_predecessors.mpr hu)⟩
  · rcases hattained with heq | ⟨u, hu, heq⟩
    · exact .inl heq
    · exact .inr ⟨u, _, mem_predecessors.mp hu, hlookup u (mem_predecessors.mp hu), heq⟩

/-- The levels that are found along an order are depths. -/
lemma isDepth_of_mem_levelsAfter (horder : g.IsOrder order) {known : List (α × ℕ)} {rest : List α}
    (hsplit : order = known.map Prod.fst ++ rest) (hknown : ∀ e ∈ known, g.IsDepth e.1 e.2) :
    ∀ e ∈ g.levelsAfter known rest, g.IsDepth e.1 e.2 := by
  induction rest generalizing known with
  | nil => exact hknown
  | cons v rest ih =>
      rw [levelsAfter]
      refine ih ?_ ?_
      · rw [hsplit, List.map_append, List.append_assoc]
        rfl
      · rw [List.forall_mem_append, List.forall_mem_singleton]
        exact ⟨hknown, isDepth_levelAbove hknown fun u hu => horder.mem_before hsplit hu⟩

/-- The level of a node is its depth. -/
lemma mem_levels_iff (horder : g.IsOrder order) :
    (v, n) ∈ g.levels order ↔ v ∈ g.nodes ∧ g.IsDepth v n := by
  have hdepth : ∀ e ∈ g.levels order, g.IsDepth e.1 e.2 :=
    isDepth_of_mem_levelsAfter horder rfl fun e he => absurd he List.not_mem_nil
  have hkeys : v ∈ (g.levels order).map Prod.fst ↔ v ∈ g.nodes := by
    rw [map_fst_levels, horder.perm.mem_iff]
  constructor
  · intro h
    exact ⟨hkeys.mp (List.mem_map_of_mem h), hdepth _ h⟩
  · rintro ⟨hv, hn⟩
    obtain ⟨⟨u, m⟩, hentry, rfl⟩ := List.mem_map.mp (hkeys.mpr hv)
    rw [hn.unique (hdepth _ hentry)]
    exact hentry

/-- Graphs with the same nodes and paths have the same levels, whatever the orders. -/
lemma levels_perm {g' : Digraph α} {order' : List α} (hg : g.IsSound) (horder : g.IsOrder order)
    (horder' : g'.IsOrder order') (hnodes : g'.nodes = g.nodes)
    (hreach : ∀ u v, g.Reaches u v ↔ g'.Reaches u v) :
    (g.levels order).Perm (g'.levels order') := by
  have hnodup : ∀ {g : Digraph α} {order : List α}, order.Nodup → (g.levels order).Nodup :=
    fun h => List.Nodup.of_map Prod.fst (by rwa [map_fst_levels])
  refine (List.perm_ext_iff_of_nodup (hnodup (horder.perm.nodup_iff.mpr hg.nodup))
    (hnodup (horder'.perm.nodup_iff.mpr (hnodes ▸ hg.nodup)))).mpr ?_
  rintro ⟨v, n⟩
  rw [mem_levels_iff horder, mem_levels_iff horder', hnodes]
  refine and_congr_right fun _ =>
    ⟨IsDepth.congr hreach, IsDepth.congr fun u v => (hreach u v).symm⟩

end Levels

end Propositional.Digraph
