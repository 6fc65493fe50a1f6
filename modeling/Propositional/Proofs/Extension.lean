/-
Propositions added behind a request.

* `Proposition.parse_before`: the text up to a comma is read as the beginning of the whole.
* `Proposition.listed_append`, `Proposition.simple_sublist`: the propositions that get a
  column still do, and the simple propositions stay simple.
* `Evaluation.IsOf.exists_projection`: the rows of the shorter request are those of the
  longer one with some simple propositions left out.
* `Table.ofText_extend`: the table of the longer request says what that of the shorter one
  says.
-/
import Propositional.Proofs.Columns
import Propositional.Proofs.Joining

namespace Propositional

/-! ### The text up to a comma -/

/-- The text before a comma is read as the beginning of the whole text. -/
lemma Proposition.parse_before {numeric : Bool} {a b : String} {rs : List Proposition}
    (h : parse numeric (a ++ ", " ++ b) = .ok rs) :
    ∃ ps qs, parse numeric a = .ok ps ∧ rs = ps ++ qs := by
  have htext : a ++ ", " ++ b = a ++ "," ++ (" " ++ b) := by
    simp only [String.append_assoc]
    rfl
  rw [htext, parse, Source.ofText_join] at h
  rcases Reading.result_join numeric (Source.ofText a) (Source.ofText (" " ++ b)) with
    ⟨ps, hps, hjoin⟩ | ⟨cause, -, hjoin⟩ | ⟨e, -, -, hjoin⟩ <;> rw [hjoin] at h
  · generalize Reading.shifted _ _ = x at h
    cases x with
    | error e => cases h
    | ok qs => exact ⟨ps, qs, hps, (Except.ok.inj h).symm⟩
  · cases h
  · cases h

/-! ### Names and columns -/

namespace Proposition

variable {numeric : Bool} {text : String} {ps qs : List Proposition} {p : Proposition} {n : String}

/-- An atom of the shorter request that has a definition has it there. -/
lemma mem_names_of_append (h : ∀ i, ¬ Clash (ps ++ qs) i) (ha : n ∈ atoms ps)
    (hn : n ∈ names (ps ++ qs)) : n ∈ names ps := by
  obtain ⟨p, hp, hpn⟩ := mem_atoms.mp ha
  obtain ⟨done, rest, rfl⟩ := List.append_of_mem hp
  rw [List.append_assoc, List.cons_append] at h hn
  rw [names_append]
  exact List.mem_append_left _ (mem_names_of_mem_atoms h hpn hn)

lemma simple_subset (h : ∀ i, ¬ Clash (ps ++ qs) i) : simple ps ⊆ simple (ps ++ qs) := by
  intro n hn
  obtain ⟨hatom, hname⟩ := mem_simple.mp hn
  refine mem_simple.mpr ⟨?_, fun hdef => hname (mem_names_of_append h hatom hdef)⟩
  rw [atoms_append]
  exact List.mem_append_left _ hatom

lemma simple_sublist (h : ∀ i, ¬ Clash (ps ++ qs) i) :
    (simple ps).Sublist (simple (ps ++ qs)) :=
  List.sublist_of_subperm_of_pairwise ((nodup_simple ps).subperm (simple_subset h))
    (pairwise_simple ps) (pairwise_simple (ps ++ qs))

/-- Whether a proposition gets a column does not depend on what follows. -/
lemma isListed_append (h : parse numeric text = .ok (ps ++ qs)) (hp : p ∈ ps) :
    isListed (ps ++ qs) p = isListed ps p := by
  have hsub : names ps ++ atoms ps ⊆ names (ps ++ qs) ++ atoms (ps ++ qs) := by
    rw [names_append, atoms_append]
    intro n hn
    rcases List.mem_append.mp hn with hn | hn
    · exact List.mem_append_left _ (List.mem_append_left _ hn)
    · exact List.mem_append_right _ (List.mem_append_left _ hn)
  have htext : p.formula.text ∈ names (ps ++ qs) ++ atoms (ps ++ qs) ↔
      p.formula.text ∈ names ps ++ atoms ps := by
    refine ⟨fun hn => ?_, fun hn => hsub hn⟩
    have hatom := formula_eq_atom h (List.mem_append_left qs hp) hn
    refine List.mem_append_right _ (mem_atoms.mpr ⟨p, hp, ?_⟩)
    rw [hatom]
    exact List.mem_singleton_self _
  rw [isListed, isListed, Bool.eq_iff_iff]
  simp only [Bool.or_eq_true, Bool.not_eq_true', ← Bool.not_eq_true, List.contains_iff_mem, htext]

lemma listed_append (h : parse numeric text = .ok (ps ++ qs)) :
    listed ps <+: listed (ps ++ qs) := by
  rw [listed, listed, List.filter_append,
    List.filter_congr fun p hp => isListed_append h hp]
  exact List.prefix_append _ _

end Proposition

lemma Compound.numbered_mono (k : ℕ) {ps qs : List Proposition} (h : ps <+: qs) :
    numbered k ps <+: numbered k qs := by
  induction ps generalizing k qs with
  | nil => exact ⟨_, rfl⟩
  | cons p ps ih =>
      obtain ⟨qs, rfl⟩ := h
      have hrest : ps <+: ps ++ qs := List.prefix_append ps qs
      rw [List.cons_append, numbered, numbered]
      cases p.name with
      | some n => exact (List.prefix_cons_inj _).mpr (ih k hrest)
      | none => exact (List.prefix_cons_inj _).mpr (ih (k + 1) hrest)

lemma Column.StandsFor.append {ps qs : List Proposition}
    (hps : ∀ i, ¬ Proposition.Clash (ps ++ qs) i) {c d : Column} {f : Formula}
    (h : c.StandsFor ps f) (hd : d.heading = c.heading) : d.StandsFor (ps ++ qs) f := by
  refine StandsFor.of_heading ?_ hd
  cases h with
  | simple hsimple hn => exact .simple hsimple (Proposition.simple_subset hps hn)
  | compound hp hc => exact .compound (List.mem_append_left qs hp) hc

/-! ### Rows -/

namespace Evaluation

variable {numeric : Bool} {ps rs : List Proposition} {e d : Evaluation}

/-- The rows of a shorter request are the rows of a longer one with the other simple
propositions left out, each of them equally often. -/
lemma IsOf.exists_projection (he : e.IsOf numeric ps) (hd : d.IsOf numeric rs)
    (hsub : (Proposition.simple ps).Sublist (Proposition.simple rs)) (ordered : Bool) :
    ∃ f : ℕ → ℕ, (∀ i < d.rows, f i < e.rows) ∧
      (∀ j < e.rows, ((Finset.range d.rows).filter fun i => f i = j).card = d.rows / e.rows) ∧
      ∀ i < d.rows, ∀ n ∈ Proposition.simple ps,
        e.value (e.place ordered (f i)) n = d.value (d.place ordered i) n := by
  -- the projection in the order of the enumeration
  let g (k : ℕ) : ℕ := Bits.rowOf (Proposition.simple ps) (Bits.assigned (Proposition.simple rs) k)
  have hg : ∀ k, g k < e.rows := by
    intro k
    rw [he.rows]
    exact Bits.rowOf_lt _ _
  have hcount : ∀ j < e.rows,
      ((Finset.range d.rows).filter fun k => g k = j).card = d.rows / e.rows := by
    intro j hj
    rw [he.rows] at hj
    rw [← Nat.count_eq_card_filter_range, hd.rows, he.rows,
      Nat.pow_div hsub.length_le Nat.two_pos]
    exact Bits.count_rowOf hsub (Proposition.nodup_simple rs) hj
  refine ⟨fun i => e.place ordered (g (d.place ordered i)), fun i _ => place_lt (hg _),
    fun j hj => ?_, fun i hi n hn => ?_⟩
  · have hplace : e.place ordered j < e.rows := place_lt hj
    rw [← hcount _ hplace]
    refine Finset.card_nbij' (d.place ordered) (d.place ordered) ?_ ?_ ?_ ?_
    · intro i hi
      rw [Finset.mem_coe, Finset.mem_filter, Finset.mem_range] at hi ⊢
      exact ⟨place_lt hi.1, by rw [← hi.2, place_place ordered (hg _)]⟩
    · intro k hk
      rw [Finset.mem_coe, Finset.mem_filter, Finset.mem_range] at hk ⊢
      refine ⟨place_lt hk.1, ?_⟩
      show e.place ordered (g (d.place ordered (d.place ordered k))) = j
      rw [place_place ordered hk.1, hk.2, place_place ordered hj]
    · intro i hi
      exact place_place ordered (Finset.mem_range.mp (Finset.mem_filter.mp hi).1)
    · intro k hk
      exact place_place ordered (Finset.mem_range.mp (Finset.mem_filter.mp hk).1)
  · have hplace : d.place ordered i < d.rows := place_lt hi
    rw [place_place ordered (hg _), he.value_eq hn (hg _), hd.value_eq (hsub.subset hn) hplace,
      Bits.assigned_rowOf _ hn]

end Evaluation

/-! ### Tables -/

/-- **Added propositions change nothing.** If propositions are added behind a request and
there is a table, then there is one without them.  Its columns are among those of the
longer table, under the same headings, and its compounds come first there.  Every row of
the longer table shows in these columns what a row of the shorter one shows, and each row
of the shorter one is shown equally often. -/
theorem Table.ofText_extend {numeric ordered : Bool} {a b : String} {t : Table}
    (h : Table.ofText numeric ordered (a ++ ", " ++ b) = .ok t) :
    ∃ s, Table.ofText numeric ordered a = .ok s ∧
      (∀ c ∈ s.columns, ∃ d ∈ t.columns, d.heading = c.heading) ∧
      (s.columns.filter fun c => c.kind ≠ .simple).map Column.heading <+:
        (t.columns.filter fun c => c.kind ≠ .simple).map Column.heading ∧
      ∃ f : ℕ → ℕ, (∀ i < t.rows, f i < s.rows) ∧
        (∀ j < s.rows, ((Finset.range t.rows).filter fun i => f i = j).card = t.rows / s.rows) ∧
        ∀ c ∈ s.columns, ∀ d ∈ t.columns, d.name = c.name →
          ∀ i < t.rows, ∃ bit, d.bits[i]? = some bit ∧ c.bits[f i]? = some bit := by
  obtain ⟨rs, hrs, hclash⟩ := Table.parse_of_ok h
  obtain ⟨ps, qs, hps, rfl⟩ := Proposition.parse_before hrs
  have hclash' : ∀ i, ¬ Proposition.Clash ps i := fun i hi => hclash i (hi.append qs)
  obtain ⟨d, hd, htable⟩ := Table.exists_evaluation hrs hclash
  obtain ⟨e, he, htable'⟩ := Table.exists_evaluation hps hclash'
  obtain rfl : d.table numeric ordered = t := Except.ok.inj ((htable ordered).symm.trans h)
  have hsub := Proposition.simple_sublist hclash
  have hinit := Compound.numbered_mono 0 (Proposition.listed_append hrs)
  have hcolumns : ∀ c ∈ (e.table numeric ordered).columns,
      ∃ c' ∈ (d.table numeric ordered).columns, c'.heading = c.heading := by
    intro c hc
    have hmem := List.mem_map_of_mem (f := Column.heading) hc
    rw [he.heading_columns ordered, List.mem_append] at hmem
    rw [← List.mem_map, hd.heading_columns ordered, List.mem_append]
    refine hmem.imp (fun hmem => ?_) fun hmem => ?_
    · exact List.map_subset _ hsub.subset hmem
    · exact List.map_subset _ hinit.subset hmem
  obtain ⟨f, hf, hcount, hvalue⟩ := he.exists_projection hd hsub ordered
  refine ⟨e.table numeric ordered, htable' ordered, hcolumns, ?_, f, hf, hcount, ?_⟩
  · rw [Evaluation.filter_columns_table, Evaluation.filter_columns_table, he.heading_compounds,
      hd.heading_compounds]
    exact hinit.map _
  · intro c hc c' hc' hname i hi
    obtain ⟨c'', hc'', hheading⟩ := hcolumns c hc
    have hplain := fun n => Proposition.unreserved (n := n) hrs
    obtain rfl : c' = c'' := by
      refine List.inj_on_of_nodup_map (hd.nodup_names ordered hclash hplain) hc' hc'' ?_
      exact hname.trans (congrArg Prod.fst hheading).symm
    obtain ⟨g, hg, hvector⟩ := he.exists_formula ordered hc
    obtain ⟨g', hg', hvector'⟩ := hd.exists_formula ordered hc'
    obtain rfl : g = g' := (hg.append hclash hheading).eq hrs hg'
    have hlt : f i < c.bits.size := hvector.size ▸ hf i hi
    have hget : c.bits[f i]? = some c.bits[f i] := Array.getElem?_eq_getElem hlt
    refine ⟨_, (hvector'.means i hi _).mpr ?_, hget⟩
    have hmeans := (hvector.means (f i) (hf i hi) _).mp hget
    exact hmeans.mono (List.subset_append_left ps qs)
      (fun n => Proposition.mem_names_of_append hclash) (hvalue i hi) hg.atoms_subset

/-- A constant that is added doubles the rows, also where they are reversed. -/
theorem Table.ofText_extend_constant :
    ∃ t, Table.ofText true false ("p = !a" ++ ", " ++ "1 -> p") = .ok t ∧
      ∃ s, Table.ofText true false "p = !a" = .ok s ∧
        (∀ c ∈ s.columns, ∃ d ∈ t.columns, d.heading = c.heading) ∧
        (s.columns.filter fun c => c.kind ≠ .simple).map Column.heading <+:
          (t.columns.filter fun c => c.kind ≠ .simple).map Column.heading ∧
        ∃ f : ℕ → ℕ, (∀ i < t.rows, f i < s.rows) ∧
          (∀ j < s.rows, ((Finset.range t.rows).filter fun i => f i = j).card = t.rows / s.rows) ∧
          ∀ c ∈ s.columns, ∀ d ∈ t.columns, d.name = c.name →
            ∀ i < t.rows, ∃ bit, d.bits[i]? = some bit ∧ c.bits[f i]? = some bit :=
  have h : Table.ofText true false ("p = !a" ++ ", " ++ "1 -> p") =
      .ok ⟨[⟨"1", "1", #[true, true, true, true], .simple⟩,
        ⟨"a", "a", #[true, false, true, false], .simple⟩,
        ⟨"p", "p = ¬a", #[false, true, false, true], .named⟩,
        ⟨"$p0", "1 -> p", #[false, true, false, true], .anonymous⟩], 4, true, false⟩ := by
    decide +kernel
  ⟨_, h, Table.ofText_extend h⟩

end Propositional
