/-
The numbers of classes in the text that is shown for a class.

* `Digraph.length_successors`, `Digraph.length_predecessors`: the neighbours of a node, where
  no edge is listed twice.
* `Entailment.entailed`, `Entailment.entailing`: the other classes that a class entails, and
  those that entail it; `Entailment.next`, `Entailment.previous`: those of them that no other
  class lies between.
* `Entailment.ncard_next_eq_iff`: there are as many of these as of the former exactly where no
  chain goes on.
* `Entailment.hover_counts`: the texts of the order count the former, and those of its diagram
  the latter.
-/
import Mathlib.Data.Set.Card
import Propositional.Proofs.Drawing.Poset
import Propositional.Proofs.Lines

namespace Propositional

/-! ### Neighbours -/

namespace Digraph

variable {α : Type} [DecidableEq α] {g : Digraph α}

lemma length_eq_ncard {l : List α} {s : Set α} (h : l.Nodup) (hs : ∀ a, a ∈ s ↔ a ∈ l) :
    l.length = s.ncard := by
  have hcoe : s = (l.toFinset : Set α) := by
    ext a
    rw [hs, Finset.mem_coe, List.mem_toFinset]
  rw [hcoe, Set.ncard_coe_finset, List.toFinset_card_of_nodup h]

lemma length_successors (h : g.edges.Nodup) (u : α) :
    (g.successors u).length = {v | g.Adj u v}.ncard := by
  refine length_eq_ncard ((h.filter _).map_on fun e he f hf heq => ?_) fun v => ?_
  · rw [List.mem_filter, decide_eq_true_iff] at he hf
    exact Prod.ext (he.2.trans hf.2.symm) heq
  · exact mem_successors.symm

lemma length_predecessors (h : g.edges.Nodup) (v : α) :
    (g.predecessors v).length = {u | g.Adj u v}.ncard := by
  refine length_eq_ncard ((h.filter _).map_on fun e he f hf heq => ?_) fun u => ?_
  · rw [List.mem_filter, decide_eq_true_iff] at he hf
    exact Prod.ext heq (he.2.trans hf.2.symm)
  · exact mem_predecessors.symm

end Digraph

namespace Entailment

variable {t : Table} {e r : Entailment} {i j n : ℕ}

/-! ### Classes above and below -/

/-- The other classes that a class entails. -/
def entailed (e : Entailment) (i : ℕ) : Set ℕ :=
  {j | j ≠ i ∧ ∃ k l, e.classes[i]? = some k ∧ e.classes[j]? = some l ∧
    ∀ row : ℕ, k.bits[row]? = some true → l.bits[row]? = some true}

/-- The other classes that entail a class. -/
def entailing (e : Entailment) (i : ℕ) : Set ℕ := {j | i ∈ e.entailed j}

/-- The classes that a class entails by way of no other class. -/
def next (e : Entailment) (i : ℕ) : Set ℕ :=
  {j ∈ e.entailed i | ∀ k ∈ e.entailed i, j ∉ e.entailed k}

/-- The classes that entail a class by way of no other class. -/
def previous (e : Entailment) (i : ℕ) : Set ℕ :=
  {j ∈ e.entailing i | ∀ k ∈ e.entailing i, j ∉ e.entailing k}

/-- In an order there are as many elements next to one as beyond it exactly if nothing is beyond
any of these. -/
lemma ncard_next_eq_iff {beyond : ℕ → Set ℕ} (hfinite : (beyond i).Finite)
    (htrans : ∀ j ∈ beyond i, beyond j ⊆ beyond i) :
    {j ∈ beyond i | ∀ k ∈ beyond i, j ∉ beyond k}.ncard = (beyond i).ncard ↔
      ∀ j ∈ beyond i, beyond j = ∅ := by
  have hsub : {j ∈ beyond i | ∀ k ∈ beyond i, j ∉ beyond k} ⊆ beyond i := fun j hj => hj.1
  constructor
  · intro hcount j hj
    have heq := Set.eq_of_subset_of_ncard_le hsub hcount.ge hfinite
    rw [Set.eq_empty_iff_forall_notMem]
    intro k hk
    exact (heq.superset (htrans j hj hk)).2 j hj hk
  · intro hnone
    have heq : {j ∈ beyond i | ∀ k ∈ beyond i, j ∉ beyond k} = beyond i := by
      refine hsub.antisymm fun j hj => ⟨hj, fun k hk hjk => ?_⟩
      rw [hnone k hk] at hjk
      exact hjk
    rw [heq]

lemma adj_iff_mem_entailed (hsize : ∀ c ∈ t.columns, c.bits.size = n) :
    (ofTable t).graph.Adj i j ↔ j ∈ (ofTable t).entailed i := by
  rw [adj_iff hsize]
  constructor
  · rintro ⟨k, l, hk, hl, hne, hrows⟩
    refine ⟨?_, k, l, hk, hl, hrows⟩
    rintro rfl
    exact hne (congrArg EquivalenceClass.bits (Option.some.inj (hk.symm.trans hl)))
  · rintro ⟨hne, k, l, hk, hl, hrows⟩
    exact ⟨k, l, hk, hl, fun heq => hne ((EquivalenceClass.bits_eq_iff hk hl).mp heq).symm, hrows⟩

/-- In every reduction the edges lead from each class to the next ones. -/
lemma adj_iff_mem_next (hsize : ∀ c ∈ t.columns, c.bits.size = n) {graph : Digraph ℕ}
    (h : (ofTable t).graph.IsReduction graph) :
    graph.Adj i j ↔ j ∈ (ofTable t).next i := by
  obtain ⟨r, -, hdiagram⟩ := (isPoset_ofTable hsize).exists_diagram
  rw [hdiagram.unique graph h, hdiagram.covers]
  simp only [adj_iff_mem_entailed hsize, not_exists, not_and]
  rfl

/-- In every reduction the edges come to each class from the previous ones. -/
lemma adj_iff_mem_previous (hsize : ∀ c ∈ t.columns, c.bits.size = n) {graph : Digraph ℕ}
    (h : (ofTable t).graph.IsReduction graph) :
    graph.Adj i j ↔ i ∈ (ofTable t).previous j := by
  obtain ⟨r, -, hdiagram⟩ := (isPoset_ofTable hsize).exists_diagram
  rw [hdiagram.unique graph h, hdiagram.covers]
  simp only [adj_iff_mem_entailed hsize, not_exists, not_and']
  rfl

lemma finite_entailed (e : Entailment) (i : ℕ) :
    (e.entailed i).Finite ∧ (e.entailing i).Finite := by
  have hbound : (Set.Iio e.classes.length).Finite := Set.finite_Iio _
  refine ⟨hbound.subset ?_, hbound.subset ?_⟩
  · rintro j ⟨-, k, l, -, hl, -⟩
    exact (List.getElem?_eq_some_iff.mp hl).1
  · rintro j ⟨-, k, l, hk, -, -⟩
    exact (List.getElem?_eq_some_iff.mp hk).1

/-! ### The text of a class -/

/-- The end of the text for a class: how many classes entail it, and how many it entails. -/
def counts (below above : ℕ) : String :=
  "<br>" ++ ("Entailed by: " ++ toString below) ++ "<br>" ++ ("Entails: " ++ toString above)

/-- The numbers can be read from the text. -/
lemma counts_inj {front : String} {below above below' above' : ℕ} :
    front ++ counts below above = front ++ counts below' above' ↔
      below = below' ∧ above = above' := by
  refine ⟨fun h => ?_, fun h => by rw [h.1, h.2]⟩
  have hchars := congrArg String.toList h
  simp only [counts, String.toList_append, List.append_assoc, List.append_cancel_left_eq,
    Nat.toString_eq_ofList_toDigits, String.toList_ofList] at hchars
  have hnone : ∀ above : ℕ, ∀ c ∈
      ("<br>".toList ++ ("Entails: ".toList ++ Nat.toDigits 10 above)).head?,
      c.isDigit = false :=
    fun above => Text.isDigit_of_mem_head? (c := '<') (by decide) (by decide)
  obtain ⟨hbelow, hrest⟩ := Text.toDigits_append_inj (hnone above) (hnone above') hchars
  rw [List.append_cancel_left_eq, List.append_cancel_left_eq] at hrest
  have hdigits : Nat.toDigits 10 above ++ [] = Nat.toDigits 10 above' ++ [] := by rw [hrest]
  exact ⟨hbelow, (Text.toDigits_append_inj (by simp) (by simp) hdigits).1⟩

/-- Before the numbers, the text for a class does not depend on the edges. -/
lemma exists_front (g : Glyphs) (k : EquivalenceClass) :
    ∃ front : String, ∀ (e : Entailment) (i : ℕ), "<br>".intercalate (e.hoverLines g i k) =
      front ++ counts (e.graph.predecessors i).length (e.graph.successors i).length := by
  refine ⟨"<br>".intercalate (k.members.map (fun c => "<b>" ++ c.header ++ "</b>") ++
    ["", "Values: " ++ String.join (k.bits.toList.map g.glyph)] ++ constancy k.bits ++ [""]),
    fun e i => ?_⟩
  have hlines : e.hoverLines g i k =
      (k.members.map (fun c => "<b>" ++ c.header ++ "</b>") ++
        ["", "Values: " ++ String.join (k.bits.toList.map g.glyph)] ++ constancy k.bits ++ [""]) ++
      ["Entailed by: " ++ toString (e.graph.predecessors i).length,
        "Entails: " ++ toString (e.graph.successors i).length] := by
    simp [hoverLines]
  rw [hlines, String.intercalate_append_of_ne_nil (by simp) (by simp),
    String.intercalate_cons_cons, String.intercalate_singleton, counts]
  simp only [String.append_assoc]

lemma getElem?_hover {k : EquivalenceClass} (g : Glyphs) (hk : e.classes[i]? = some k) :
    (e.hover g)[i]? = some ("<br>".intercalate (e.hoverLines g i k)) := by
  rw [hover, List.getElem?_map, List.getElem?_zipIdx, hk]
  simp

/-- **What the numbers for a class count.**  For every class of a rectangular table the text of
its order ends with the number of the other classes that entail the class and the number of
those that it entails.  The text of the diagram, whichever reduction it is, has in their place
the numbers of those that no other class lies between.  So the texts are the same exactly if the
class is in no chain of three that begins or ends with it. -/
theorem hover_counts (h : t.IsRectangular) (g : Glyphs) {k : EquivalenceClass}
    (hk : (ofTable t).classes[i]? = some k) :
    ∃ front : String,
      ((ofTable t).hover g)[i]? = some (front ++ counts ((ofTable t).entailing i).ncard
        ((ofTable t).entailed i).ncard) ∧
      (∀ graph, (ofTable t).graph.IsReduction graph → graph.edges.Nodup →
        (((ofTable t).withGraph graph).hover g)[i]? = some (front ++
          counts ((ofTable t).previous i).ncard ((ofTable t).next i).ncard)) ∧
      (∃ r, (ofTable t).reduction = .ok r ∧ (r.hover g)[i]? = some (front ++
        counts ((ofTable t).previous i).ncard ((ofTable t).next i).ncard)) ∧
      (front ++ counts ((ofTable t).previous i).ncard ((ofTable t).next i).ncard =
          front ++ counts ((ofTable t).entailing i).ncard ((ofTable t).entailed i).ncard ↔
        (∀ j ∈ (ofTable t).entailing i, (ofTable t).entailing j = ∅) ∧
          ∀ j ∈ (ofTable t).entailed i, (ofTable t).entailed j = ∅) := by
  obtain ⟨n, hsize⟩ := h
  have hposet := isPoset_ofTable hsize
  obtain ⟨r, hr, hdiagram⟩ := hposet.exists_diagram
  obtain ⟨front, hfront⟩ := exists_front g k
  have hreduced : ∀ graph, (ofTable t).graph.IsReduction graph → graph.edges.Nodup →
      (((ofTable t).withGraph graph).hover g)[i]? = some (front ++
        counts ((ofTable t).previous i).ncard ((ofTable t).next i).ncard) := by
    intro graph hgraph hnodup
    have hbelow : {j | graph.Adj j i} = (ofTable t).previous i :=
      Set.ext fun j => adj_iff_mem_previous hsize hgraph
    have habove : {j | graph.Adj i j} = (ofTable t).next i :=
      Set.ext fun j => adj_iff_mem_next hsize hgraph
    rw [getElem?_hover (e := (ofTable t).withGraph graph) g hk, hfront]
    rw [withGraph, Digraph.length_predecessors hnodup, Digraph.length_successors hnodup, hbelow,
      habove]
  refine ⟨front, ?_, hreduced, ⟨r, hr, ?_⟩, ?_⟩
  · have hbelow : {j | (ofTable t).graph.Adj j i} = (ofTable t).entailing i :=
      Set.ext fun j => adj_iff_mem_entailed hsize
    have habove : {j | (ofTable t).graph.Adj i j} = (ofTable t).entailed i :=
      Set.ext fun j => adj_iff_mem_entailed hsize
    rw [getElem?_hover g hk, hfront, Digraph.length_predecessors hposet.nodup,
      Digraph.length_successors hposet.nodup, hbelow, habove]
  · rw [hdiagram.eq]
    exact hreduced r.graph hdiagram.reduction hdiagram.nodup
  · -- entailment is transitive, so beyond a class there is all that is beyond these classes
    have htrans : ∀ i j k, j ∈ (ofTable t).entailed i → k ∈ (ofTable t).entailed j →
        k ∈ (ofTable t).entailed i := by
      intro i j k hij hjk
      rw [← adj_iff_mem_entailed hsize] at hij hjk ⊢
      exact hposet.trans i j k hij hjk
    obtain ⟨hfinite, hfinite'⟩ := finite_entailed (ofTable t) i
    rw [counts_inj, previous, next, ncard_next_eq_iff hfinite' fun j hj k hk => htrans k j i hk hj,
      ncard_next_eq_iff hfinite fun j hj k hk => htrans i j k hj hk]

/-- The class in the middle of a chain of three neither begins nor ends one, and its texts
agree. -/
theorem hover_counts_middle :
    ∃ t : Table, t = ⟨[⟨"a", "a", #[false, false], .simple⟩, ⟨"b", "b", #[false, true], .simple⟩,
        ⟨"c", "c", #[true, true], .simple⟩], 2, true, true⟩ ∧ t.IsRectangular ∧
      ∃ k, (ofTable t).classes[1]? = some k ∧ ∃ front : String,
        ((ofTable t).hover {})[1]? = some (front ++ counts ((ofTable t).entailing 1).ncard
          ((ofTable t).entailed 1).ncard) ∧
        (∀ graph, (ofTable t).graph.IsReduction graph → graph.edges.Nodup →
          (((ofTable t).withGraph graph).hover {})[1]? = some (front ++
            counts ((ofTable t).previous 1).ncard ((ofTable t).next 1).ncard)) ∧
        (∃ r, (ofTable t).reduction = .ok r ∧ (r.hover {})[1]? = some (front ++
          counts ((ofTable t).previous 1).ncard ((ofTable t).next 1).ncard)) ∧
        (front ++ counts ((ofTable t).previous 1).ncard ((ofTable t).next 1).ncard =
            front ++ counts ((ofTable t).entailing 1).ncard ((ofTable t).entailed 1).ncard ↔
          (∀ j ∈ (ofTable t).entailing 1, (ofTable t).entailing j = ∅) ∧
            ∀ j ∈ (ofTable t).entailed 1, (ofTable t).entailed j = ∅) :=
  have h : Table.IsRectangular ⟨[⟨"a", "a", #[false, false], .simple⟩,
      ⟨"b", "b", #[false, true], .simple⟩, ⟨"c", "c", #[true, true], .simple⟩], 2, true, true⟩ :=
    ⟨2, by decide⟩
  ⟨_, rfl, h, _, rfl, hover_counts h {} rfl⟩

/-- The contradiction at the foot of a chain of three entails two other classes, and the text of
the diagram has one of them only. -/
theorem hover_foot :
    ∃ t r, Table.ofText true true "p & !p, p -> p" = .ok t ∧ (ofTable t).reduction = .ok r ∧
      ((ofTable t).entailed 1).ncard = 2 ∧
      ((ofTable t).hover {})[1]? = some ("<b>p ∧ ¬p</b><br><br>Values: 00<br>✓ Contradiction<br>" ++
        "<br>Entailed by: 0<br>Entails: 2") ∧
      (r.hover {})[1]? = some ("<b>p ∧ ¬p</b><br><br>Values: 00<br>✓ Contradiction<br>" ++
        "<br>Entailed by: 0<br>Entails: 1") := by
  let t : Table := ⟨[⟨"p", "p", #[false, true], .simple⟩,
    ⟨"$p0", "p ∧ ¬p", #[false, false], .anonymous⟩,
    ⟨"$p1", "p -> p", #[true, true], .anonymous⟩], 2, true, true⟩
  have ht : Table.ofText true true "p & !p, p -> p" = .ok t := by decide +kernel +zetaReduce
  have hedges : (ofTable t).graph.edges = [(0, 2), (1, 0), (1, 2)] := by
    decide +kernel +zetaReduce
  refine ⟨t, (ofTable t).withGraph ⟨[0, 1, 2], [(0, 2), (1, 0)]⟩, ht,
    by decide +kernel +zetaReduce, ?_, by decide +kernel +zetaReduce,
    by decide +kernel +zetaReduce⟩
  have hentailed : (ofTable t).entailed 1 = {0, 2} := by
    ext j
    rw [← adj_iff_mem_entailed (Table.size_of_ok ht), Digraph.Adj, hedges]
    simp
  rw [hentailed, Set.ncard_pair (by decide)]

end Entailment

end Propositional
