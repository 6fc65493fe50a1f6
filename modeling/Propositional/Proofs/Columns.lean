/-
What the table of a text is made of.

* `Proposition.simple`: the simple propositions of a request in increasing order.
* `Proposition.Readable.same`: propositions that are derived from pieces of text are known by
  their own texts.
* `Evaluation.IsOf`: the evaluation of a request.  It has the rows of its simple
  propositions, and its compounds are numbered in order and have the vectors of their
  formulas.
* `Request.exists_isOf`: a request without clashes has its evaluation.
* `Table.exists_evaluation`, `Table.parse_of_ok`, `Table.exists_isOf`: the texts with a table
  are those that are read to their end without a clash, and the table is that of their
  evaluation.
* `Table.Parts`: the columns of the simple propositions, and those of the compounds.
* `Evaluation.IsOf.heading_columns`, `Evaluation.IsOf.nodup_names`: what stands over the
  columns of a table, and that no two of them have the same name.
* `Evaluation.IsOf.exists_formula`, `Table.size_of_ok`: every column stands for a formula of
  the request and has its vector, which runs over the rows of the table.
-/
import Propositional.Proofs.Printing
import Propositional.Proofs.Rows

namespace Propositional

/-! ### The names of a request -/

namespace Proposition

variable {ps : List Proposition} {n : String}

/-- The simple propositions of a request, in increasing order. -/
def simple (ps : List Proposition) : List String :=
  sortNames ((atoms ps).filter fun n => n ∉ names ps).dedup

lemma mem_simple : n ∈ simple ps ↔ n ∈ atoms ps ∧ n ∉ names ps := by
  rw [simple, mem_sortNames, List.mem_dedup, List.mem_filter, decide_eq_true_iff]

lemma pairwise_simple (ps : List Proposition) : (simple ps).Pairwise (· ≤ ·) := by
  rw [simple, sortNames_eq]
  exact List.pairwise_insertionSort _ _

lemma nodup_simple (ps : List Proposition) : (simple ps).Nodup := by
  rw [simple, sortNames_eq, (List.perm_insertionSort _ _).nodup_iff]
  exact List.nodup_dedup _

/-- The simple propositions increase strictly. -/
lemma sorted_simple (ps : List Proposition) : (simple ps).Pairwise (· < ·) := by
  refine ((pairwise_simple ps).and (nodup_simple ps)).imp ?_
  rintro m n ⟨hle, hne⟩
  by_contra hlt
  exact hne (String.le_antisymm hle (String.not_lt.mp hlt))

lemma sortedNames_eq {s : Scope} (h : s.Records (names ps) (atoms ps)) :
    s.sortedNames = simple ps := by
  have hperm : (s.simple.map Prod.fst).Perm ((atoms ps).filter fun n => n ∉ names ps).dedup := by
    refine (List.perm_ext_iff_of_nodup h.nodup (List.nodup_dedup _)).mpr fun n => ?_
    rw [← List.contains_iff_mem, ← Scope.isSimple, h.isSimple, List.mem_dedup, List.mem_filter,
      decide_eq_true_iff]
  rw [Scope.sortedNames, simple, sortNames_eq, sortNames_eq]
  refine List.Perm.eq_of_pairwise' (List.pairwise_insertionSort _ _)
    (List.pairwise_insertionSort _ _) ?_
  exact (List.perm_insertionSort _ _).trans (hperm.trans (List.perm_insertionSort _ _).symm)

lemma Clash.append {i : ℕ} (h : Clash ps i) (qs : List Proposition) : Clash (ps ++ qs) i := by
  obtain ⟨p, n, hp, hn, hmem⟩ := h
  obtain ⟨hi, -⟩ := List.getElem?_eq_some_iff.mp hp
  refine ⟨p, n, ?_, hn, ?_⟩
  · rw [List.getElem?_append_left hi, hp]
  · rwa [List.take_append_of_le_length hi.le, List.take_append_of_le_length hi]

lemma nodup_names (h : ∀ i, ¬ Clash ps i) : (names ps).Nodup := by
  induction ps using List.reverseRecOn with
  | nil => exact List.nodup_nil
  | append_singleton ps p ih =>
      have hps := ih fun i hi => h i (hi.append [p])
      have hlast := h ps.length
      rw [clash_length_iff ps [] p] at hlast
      rw [names_append]
      cases hp : p.name with
      | none => simpa [names, hp] using hps
      | some n =>
          have hn : n ∉ names ps := fun hn => hlast ⟨n, hp, .inl hn⟩
          have hsingle : names [p] = [n] := by simp [names, hp]
          rw [hsingle, ← List.concat_eq_append]
          exact hps.concat hn

section Parsed

variable {numeric : Bool} {text : String} {p q : Proposition}

lemma unreserved (h : parse numeric text = .ok ps) (hn : n ∈ names ps ∨ n ∈ atoms ps) :
    Unreserved n := by
  obtain ⟨is, htokens, rfl⟩ := (Reading.result_eq_ok_iff _ _).mp h
  exact is.unreserved htokens hn

/-- A proposition that is derived from pieces of text, wherever these stand. -/
def Readable (p : Proposition) : Prop :=
  ∃ (numeric : Bool) (i : Derivation.Item numeric), i.proposition.Same p ∧
    ∀ t ∈ i.tokens, Token.IsPiece t.kind t.lexeme

/-- Such propositions are known by their texts. -/
lemma Readable.same (hp : p.Readable) (hq : q.Readable) (h : p.text = q.text) : p.Same q := by
  obtain ⟨_, i, hip, hi⟩ := hp
  obtain ⟨_, j, hjq, hj⟩ := hq
  have hij := Derivation.Item.same_of_text_eq hi hj (hip.text_eq.trans (h.trans hjq.text_eq.symm))
  exact ⟨hip.name.symm.trans (hij.name.trans hjq.name),
    hip.formula.symm.trans (hij.formula.trans hjq.formula)⟩

/-- The propositions of a text are readable. -/
lemma readable (h : parse numeric text = .ok ps) (hp : p ∈ ps) : p.Readable := by
  obtain ⟨i, rfl, hi⟩ := exists_item h hp
  exact ⟨numeric, i, ⟨rfl, rfl⟩, hi⟩

lemma readable_formula (h : parse numeric text = .ok ps) (hp : p ∈ ps) :
    (⟨none, p.tree⟩ : Proposition).Readable := by
  obtain ⟨d, hd, hpieces⟩ := exists_derivation h hp
  exact ⟨numeric, .plain d, ⟨rfl, hd⟩, hpieces⟩

/-- A name as a proposition of its own. -/
def mention (n : String) : Proposition := ⟨none, .atom ⟨.ident, n, .start⟩⟩

/-- So are the names and the atoms of a text. -/
lemma readable_mention (h : parse numeric text = .ok ps) (hn : n ∈ names ps ∨ n ∈ atoms ps) :
    (mention n).Readable := by
  obtain ⟨is, rfl, hall⟩ := exists_items h
  obtain ⟨p, hp, hpn⟩ := mem_names_or_mem_atoms.mp hn
  obtain ⟨t, ht, hatom, rfl⟩ := is.exists_of_mem hp hpn
  obtain ⟨d, htokens, hd⟩ := (Derivation.atom t hatom).exists_of_le (Nat.zero_le 6)
  have hformula : d.formula = .atom t.lexeme := by rw [Derivation.formula, hd]; rfl
  refine ⟨numeric, .plain d, ⟨rfl, hformula⟩, fun u hu => ?_⟩
  have hmem : u ∈ (Derivation.atom t hatom).tokens := htokens ▸ hu
  exact hall u (List.mem_singleton.mp hmem ▸ ht)

/-- A formula whose text is a name or an atom of the request is that atom. -/
lemma formula_eq_atom (h : parse numeric text = .ok ps) (hp : p ∈ ps)
    (hn : p.formula.text ∈ names ps ++ atoms ps) : p.formula = .atom p.formula.text :=
  ((readable_formula h hp).same (readable_mention h (List.mem_append.mp hn)) rfl).formula

end Parsed

end Proposition

/-- The names of numbered compounds are different, where those of the propositions
are. -/
lemma Compound.nodup_numbered (k : ℕ) {ps : List Proposition}
    (hps : (Proposition.names ps).Nodup) (hplain : ∀ n ∈ Proposition.names ps, Unreserved n) :
    ((numbered k ps).map name).Nodup ∧
      ∀ c ∈ numbered k ps, c.name ∈ Proposition.names ps ∨ ∃ j ≥ k, c.name = anonymousName j := by
  induction ps generalizing k with
  | nil => exact ⟨List.nodup_nil, List.forall_mem_nil _⟩
  | cons p ps ih =>
      rw [numbered]
      cases hp : p.name with
      | some n =>
          have hnames : Proposition.names (p :: ps) = n :: Proposition.names ps := by
            simp [Proposition.names, hp]
          rw [hnames] at hps hplain ⊢
          obtain ⟨hn, hps⟩ := List.nodup_cons.mp hps
          rw [List.forall_mem_cons] at hplain
          obtain ⟨hnodup, hcases⟩ := ih k hps hplain.2
          dsimp only
          rw [List.map_cons, List.nodup_cons, List.forall_mem_cons]
          refine ⟨⟨fun hmem => ?_, hnodup⟩, .inl List.mem_cons_self, fun c hc => ?_⟩
          · obtain ⟨c, hc, hcn⟩ := List.mem_map.mp hmem
            rcases hcases c hc with hc | ⟨j, -, hj⟩
            · rw [hcn] at hc
              exact hn hc
            · exact hplain.1.ne_anonymousName j (hcn.symm.trans hj)
          · exact (hcases c hc).imp_left (List.mem_cons_of_mem _)
      | none =>
          have hnames : Proposition.names (p :: ps) = Proposition.names ps := by
            simp [Proposition.names, hp]
          rw [hnames] at hps hplain ⊢
          obtain ⟨hnodup, hcases⟩ := ih (k + 1) hps hplain
          dsimp only
          rw [List.map_cons, List.nodup_cons, List.forall_mem_cons]
          refine ⟨⟨fun hmem => ?_, hnodup⟩, .inr ⟨k, le_rfl, rfl⟩, fun c hc => ?_⟩
          · obtain ⟨c, hc, hcn⟩ := List.mem_map.mp hmem
            rcases hcases c hc with hc | ⟨j, hj, hcj⟩
            · exact (hplain _ hc).ne_anonymousName k hcn
            · have := anonymousName_injective (hcn.symm.trans hcj)
              omega
          · rcases hcases c hc with hmem | ⟨j, hj, hcj⟩
            · exact .inl hmem
            · exact .inr ⟨j, by omega, hcj⟩

/-! ### The evaluation of a text -/

/-- What the evaluation of a request is: a row for each assignment to its simple
propositions, its compounds in order, and for each of them the vector of its formula. -/
structure Evaluation.IsOf (numeric : Bool) (ps : List Proposition) (e : Evaluation) : Prop where
  rows : e.rows = 2 ^ (Proposition.simple ps).length
  simple : e.simple = Bits.enumerate numeric (Proposition.simple ps)
  compounds : e.compounds.map Prod.fst = Compound.numbered 0 (Proposition.listed ps)
  vectors : List.Forall₂
    (fun p entry => p.Gives entry.1 ∧ p.formula.HasVector ps e.rows e.value entry.2)
    (Proposition.listed ps) e.compounds

lemma Compound.map_fst_evaluateAll {rows : ℕ} {cs : List Compound} {s : Scope}
    {vectors : List (Compound × Bits)} (h : evaluateAll rows cs s = .ok vectors) :
    vectors.map Prod.fst = cs := by
  induction cs generalizing s vectors with
  | nil =>
      cases h
      rfl
  | cons c cs ih =>
      rw [evaluateAll] at h
      cases hc : c.evaluate s rows with
      | error f =>
          rw [hc] at h
          cases h
      | ok bits =>
          rw [hc] at h
          dsimp only at h
          cases hrest : evaluateAll rows cs (s.fill c.name bits) with
          | error f =>
              rw [hrest] at h
              cases h
          | ok rest =>
              rw [hrest] at h
              cases h
              rw [List.map_cons, ih hrest]

/-- Every request without clashes can be evaluated. -/
lemma Request.exists_isOf {r : Request} (hps : ∀ i, ¬ Proposition.Clash r.propositions i)
    (hplain : ∀ n, n ∈ Proposition.names r.propositions ∨ n ∈ Proposition.atoms r.propositions →
      Unreserved n)
    (hrecords : r.scope.Records (Proposition.names r.propositions)
      (Proposition.atoms r.propositions)) :
    ∃ e, r.evaluate = .ok e ∧ e.IsOf r.numeric r.propositions := by
  obtain ⟨e, he, -, hall⟩ := Request.evaluate_spec hps hplain hrecords
  have htexts : ∀ p ∈ r.propositions, Unreserved p.formula.text := fun p hp =>
    p.formula.unreserved_text fun n hn =>
      hplain n (.inr (Proposition.mem_atoms.mpr ⟨p, hp, hn⟩))
  obtain ⟨hnumbered, -⟩ :=
    Compound.gather_spec 0 (fun n _ => Request.knows_enumerated hrecords n) htexts
  have hsorted := Proposition.sortedNames_eq hrecords
  have hvectors := he
  rw [Request.evaluate] at hvectors
  dsimp only at hvectors
  generalize hall' : Compound.evaluateAll _ _ _ = found at hvectors
  refine ⟨e, he, ?_⟩
  cases found with
  | error f => cases hvectors
  | ok vectors =>
      cases hvectors
      refine ⟨?_, ?_, ?_, hall⟩
      · exact (Request.rows_eq _).trans (congrArg (2 ^ List.length ·) hsorted)
      · exact congrArg (Bits.enumerate r.numeric) hsorted
      · exact (Compound.map_fst_evaluateAll hall').trans hnumbered

namespace Table

variable {numeric : Bool} {text : String} {ps : List Proposition}

/-- A text that is read to its end without a clash has the table of its evaluation. -/
lemma exists_evaluation (h : Proposition.parse numeric text = .ok ps)
    (hps : ∀ i, ¬ Proposition.Clash ps i) :
    ∃ e : Evaluation, e.IsOf numeric ps ∧
      ∀ ordered, Table.ofText numeric ordered text = .ok (e.table numeric ordered) := by
  rcases Request.ofText_of_parse h with ⟨r, hclash, -⟩ | ⟨scope, hrecords, hr⟩
  · obtain ⟨i, -, -, -, -, hi, -⟩ := hclash
    exact absurd hi (hps i)
  · obtain ⟨e, he, hof⟩ := Request.exists_isOf (r := ⟨numeric, ps, scope⟩) hps
      (fun n => Proposition.unreserved (n := n) h) hrecords
    refine ⟨e, hof, fun ordered => ?_⟩
    rw [Table.ofText, hr]
    dsimp only
    rw [Request.table, he]
    rfl

lemma parse_of_ok {ordered : Bool} {t : Table} (h : Table.ofText numeric ordered text = .ok t) :
    ∃ ps, Proposition.parse numeric text = .ok ps ∧ ∀ i, ¬ Proposition.Clash ps i := by
  cases hr : Request.ofText numeric text with
  | error r =>
      rw [ofText_of_error hr] at h
      cases h
  | ok r =>
      obtain ⟨hparse, hps, -⟩ := Request.table_of_ok hr ordered
      exact ⟨r.propositions, hparse, hps⟩

/-- A table is that of the evaluation of its request. -/
lemma exists_isOf {ordered : Bool} {t : Table} (h : Table.ofText numeric ordered text = .ok t) :
    ∃ ps, ∃ e : Evaluation, Proposition.parse numeric text = .ok ps ∧
      (∀ i, ¬ Proposition.Clash ps i) ∧ e.IsOf numeric ps ∧ e.table numeric ordered = t := by
  obtain ⟨ps, hps, hclash⟩ := parse_of_ok h
  obtain ⟨e, he, htable⟩ := exists_evaluation hps hclash
  exact ⟨ps, e, hps, hclash, he, Except.ok.inj ((htable ordered).symm.trans h)⟩

end Table

/-! ### Headings -/

/-- What stands over a column: its name, its header and where it comes from. -/
def Column.heading (c : Column) : String × String × Column.Kind := (c.name, c.header, c.kind)

/-- What stands over the column of a compound. -/
def Compound.heading (c : Compound) : String × String × Column.Kind :=
  (c.name, c.header, if c.anonymous then .anonymous else .named)

/-- The two parts of a table: first the columns of the simple propositions of a request, then
those of its compounds. -/
structure Table.Parts (ps : List Proposition) (t : Table) (simple compounds : List Column) :
    Prop where
  columns : t.columns = simple ++ compounds
  kind : ∀ c ∈ simple, c.kind = .simple
  kind_ne : ∀ c ∈ compounds, c.kind ≠ .simple
  /-- The simple propositions are the atoms that the request does not define. -/
  names : ∀ n, (∃ c ∈ simple, c.name = n) ↔ n ∈ Proposition.atoms ps ∧ n ∉ Proposition.names ps

namespace Evaluation.IsOf

variable {numeric ordered : Bool} {ps : List Proposition} {e : Evaluation}

lemma heading_compounds (h : e.IsOf numeric ps) :
    (e.compounds.map (column ordered)).map Column.heading =
      (Compound.numbered 0 (Proposition.listed ps)).map Compound.heading := by
  rw [← h.compounds, List.map_map, List.map_map]
  rfl

/-- The vectors of the enumeration are those of the simple propositions, in order. -/
lemma map_fst_simple (h : e.IsOf numeric ps) : e.simple.map Prod.fst = Proposition.simple ps := by
  rw [h.simple, Bits.map_fst_enumerate]

/-- The headings of a table are those of its simple propositions and its compounds. -/
lemma heading_columns (h : e.IsOf numeric ps) (ordered : Bool) :
    (e.table numeric ordered).columns.map Column.heading =
      (Proposition.simple ps).map (fun n => (n, n, .simple)) ++
        (Compound.numbered 0 (Proposition.listed ps)).map Compound.heading := by
  rw [columns_table, List.map_append, h.heading_compounds, ← h.map_fst_simple, List.map_map,
    List.map_map]
  rfl

/-- The columns of a table are those of its simple propositions and those of its compounds. -/
lemma parts (h : e.IsOf numeric ps) (ordered : Bool) :
    (e.table numeric ordered).Parts ps (e.simple.map (simpleColumn ordered))
      (e.compounds.map (column ordered)) := by
  refine { columns := rfl, kind := fun c hc => ?_, kind_ne := fun c hc => ?_,
           names := fun n => ?_ }
  · obtain ⟨entry, -, rfl⟩ := List.mem_map.mp hc
    rfl
  · obtain ⟨entry, -, rfl⟩ := List.mem_map.mp hc
    exact kind_column entry
  · rw [← Proposition.mem_simple, ← h.map_fst_simple, ← List.mem_map, List.map_map]
    rfl

lemma nodup_names (h : e.IsOf numeric ps) (ordered : Bool) (hps : ∀ i, ¬ Proposition.Clash ps i)
    (hplain : ∀ n, n ∈ Proposition.names ps ∨ n ∈ Proposition.atoms ps → Unreserved n) :
    ((e.table numeric ordered).columns.map Column.name).Nodup := by
  have hnames : (e.table numeric ordered).columns.map Column.name = Proposition.simple ps ++
      (Compound.numbered 0 (Proposition.listed ps)).map Compound.name := by
    have := congrArg (List.map Prod.fst) (h.heading_columns ordered)
    rw [List.map_append, List.map_map, List.map_map, List.map_map] at this
    rw [show (Prod.fst ∘ fun n : String => (n, n, Column.Kind.simple)) = id from rfl,
      List.map_id] at this
    exact this
  have hsub : (Proposition.names (Proposition.listed ps)).Sublist (Proposition.names ps) :=
    (List.filter_sublist (p := Proposition.isListed ps)).filterMap _
  obtain ⟨hnodup, hcases⟩ := Compound.nodup_numbered 0
    ((Proposition.nodup_names hps).sublist hsub) fun n hn => hplain n (.inl (hsub.subset hn))
  rw [hnames]
  refine (Proposition.nodup_simple ps).append hnodup fun n hn hmem => ?_
  obtain ⟨hatom, hname⟩ := Proposition.mem_simple.mp hn
  obtain ⟨c, hc, hcn⟩ := List.mem_map.mp hmem
  rw [← hcn] at hatom hname
  rcases hcases c hc with hc | ⟨j, -, hj⟩
  · exact hname (hsub.subset hc)
  · exact (hplain _ (.inr hatom)).ne_anonymousName j hj

/-! ### What the columns say -/

/-- The enumeration gives a constant its own value, and any other simple proposition its
value in the row. -/
lemma value_eq (h : e.IsOf numeric ps) {n : String} (hn : n ∈ Proposition.simple ps) {i : ℕ}
    (hi : i < e.rows) :
    e.value i n =
      some ((constant? numeric n).getD (Bits.assigned (Proposition.simple ps) i n)) := by
  rw [h.rows] at hi
  rw [value, h.simple]
  exact Bits.value_enumerate numeric hn hi

lemma hasVector_simple (h : e.IsOf numeric ps) {n : String} {bits : Bits}
    (hmem : (n, bits) ∈ e.simple) :
    n ∈ Proposition.simple ps ∧ (Formula.atom n).HasVector ps e.rows e.value bits := by
  have hn : n ∈ Proposition.simple ps := h.map_fst_simple ▸ List.mem_map_of_mem hmem
  have hlookup : e.simple.lookup n = some bits :=
    (Entries.lookup_eq_some_iff_mem (h.map_fst_simple ▸ Proposition.nodup_simple ps)).mpr hmem
  have hsize : bits.size = e.rows :=
    (Bits.size_of_mem_enumerate (h.simple ▸ hmem)).trans h.rows.symm
  refine ⟨hn, hsize, fun i hi b => ?_⟩
  rw [Formula.means_atom_given_iff (Proposition.mem_simple.mp hn).2, value, hlookup,
    Option.bind_some]

end Evaluation.IsOf

/-- The formula that a column stands for: the simple proposition of its name, or the
formula of the proposition that it belongs to. -/
inductive Column.StandsFor (ps : List Proposition) (c : Column) : Formula → Prop
  | simple (hkind : c.kind = .simple) (hn : c.name ∈ Proposition.simple ps) :
      StandsFor ps c (.atom c.name)
  | compound {p : Proposition} (hp : p ∈ ps) (hc : c.BelongsTo p) : StandsFor ps c p.formula

lemma Column.StandsFor.of_heading {ps : List Proposition} {c d : Column} {f : Formula}
    (h : c.StandsFor ps f) (hd : d.heading = c.heading) : d.StandsFor ps f := by
  obtain ⟨hname, hheader, hkind⟩ : d.name = c.name ∧ d.header = c.header ∧ d.kind = c.kind := by
    simpa [Column.heading] using hd
  cases h with
  | simple hsimple hn =>
      rw [← hname] at hn ⊢
      exact .simple (hkind.trans hsimple) hn
  | compound hp hc =>
      refine .compound hp ⟨hheader.trans hc.header, hkind.trans hc.kind, fun n hn => ?_⟩
      rw [hname, hc.name n hn]

/-- A column of a text stands for one formula, since texts of propositions are read
back. -/
lemma Column.StandsFor.eq {numeric : Bool} {text : String} {ps : List Proposition}
    (h : Proposition.parse numeric text = .ok ps) {c : Column} {f g : Formula}
    (hf : c.StandsFor ps f) (hg : c.StandsFor ps g) : f = g := by
  have hkind : ∀ {p : Proposition}, c.BelongsTo p → c.kind ≠ .simple := by
    intro p hc
    rw [hc.kind]
    cases p.name <;> simp
  cases hf with
  | simple hsimple =>
      cases hg with
      | simple => rfl
      | compound _ hc => exact absurd hsimple (hkind hc)
  | compound hp hc =>
      cases hg with
      | simple hsimple => exact absurd hsimple (hkind hc)
      | compound hq hc' =>
          exact ((Proposition.readable h hp).same (Proposition.readable h hq)
            (hc.header.symm.trans hc'.header)).formula

lemma Column.StandsFor.atoms_subset {ps : List Proposition} {c : Column} {f : Formula}
    (h : c.StandsFor ps f) : f.atoms ⊆ Proposition.atoms ps := by
  cases h with
  | simple _ hn =>
      intro n hmem
      rw [List.mem_singleton.mp hmem]
      exact (Proposition.mem_simple.mp hn).1
  | compound hp => exact fun n hn => Proposition.mem_atoms.mpr ⟨_, hp, hn⟩

/-- Where a request has more propositions, but none that defines an atom of it, its
formulas mean the same for the same values of its simple propositions. -/
lemma Formula.Means.mono {ps rs : List Proposition} {v w : String → Option Bool}
    (hsub : ps ⊆ rs)
    (hnames : ∀ n ∈ Proposition.atoms ps, n ∈ Proposition.names rs → n ∈ Proposition.names ps)
    (hvalue : ∀ n ∈ Proposition.simple ps, v n = w n) {f : Formula} {b : Bool}
    (hf : f.atoms ⊆ Proposition.atoms ps) (h : f.Means ps v b) : f.Means rs w b := by
  induction h with
  | @named p n b hp hn h ih =>
      refine .named (hsub hp) hn (ih fun m hm => ?_)
      exact Proposition.mem_atoms.mpr ⟨p, hp, hm⟩
  | @given n b hn h =>
      have hatom : n ∈ Proposition.atoms ps := hf (List.mem_singleton_self n)
      have hsimple : n ∈ Proposition.simple ps := Proposition.mem_simple.mpr ⟨hatom, hn⟩
      refine .given (fun hdef => hn (hnames n hatom hdef)) ?_
      rw [← hvalue n hsimple, h]
  | neg h ih => exact (ih hf).neg
  | binary hl hr ihl ihr =>
      obtain ⟨hleft, hright⟩ := List.append_subset.mp hf
      exact (ihl hleft).binary (ihr hright)
  | group h ih => exact (ih hf).group

lemma Evaluation.place_place {e : Evaluation} (ordered : Bool) {i : ℕ} (hi : i < e.rows) :
    e.place ordered (e.place ordered i) = i := by
  rw [place, place]
  split <;> omega

/-- A vector in the order of the table. -/
lemma Formula.HasVector.arrange {ps : List Proposition} {e : Evaluation} {f : Formula}
    {bits : Bits} (h : f.HasVector ps e.rows e.value bits) (ordered : Bool) :
    f.HasVector ps e.rows (fun i => e.value (e.place ordered i))
      (if ordered = true then bits else bits.reverse) := by
  refine ⟨?_, fun i hi b => ?_⟩
  · split
    · exact h.size
    · rw [Array.size_reverse, h.size]
  · rw [Evaluation.getElem?_arrange h.size hi]
    exact h.means _ (Evaluation.place_lt hi) b

lemma exists_of_forall₂ {α β : Type} {R : α → β → Prop} {l : List α} {l' : List β}
    (h : List.Forall₂ R l l') {b : β} (hb : b ∈ l') : ∃ a ∈ l, R a b := by
  induction h with
  | nil => cases hb
  | @cons a b' l l' hab htail ih =>
      rcases List.mem_cons.mp hb with rfl | hb
      · exact ⟨a, List.mem_cons_self, hab⟩
      · obtain ⟨a', ha', hr⟩ := ih hb
        exact ⟨a', List.mem_cons_of_mem _ ha', hr⟩

/-- Lists with the same images are related one by one, where members with the same image are. -/
lemma forall₂_of_map_eq {α β γ : Type} {f : α → γ} {g : β → γ} {R : α → β → Prop} {l : List α}
    {l' : List β} (h : l.map f = l'.map g) (hR : ∀ a ∈ l, ∀ b ∈ l', f a = g b → R a b) :
    List.Forall₂ R l l' := by
  have hsame : List.Forall₂ (· = ·) (l.map f) (l'.map g) := by
    rw [List.forall₂_eq_eq_eq, h]
  rw [List.forall₂_map_left_iff, List.forall₂_map_right_iff] at hsame
  obtain ⟨hlength, hzip⟩ := List.forall₂_iff_zip.mp hsame
  refine List.forall₂_iff_zip.mpr ⟨hlength, fun {a b} hmem => ?_⟩
  obtain ⟨ha, hb⟩ := List.of_mem_zip hmem
  exact hR a ha b hb (hzip hmem)

/-- Every column of a table stands for a formula and has its vector. -/
lemma Evaluation.IsOf.exists_formula {numeric : Bool} {ps : List Proposition}
    {e : Evaluation} (h : e.IsOf numeric ps) (ordered : Bool) {c : Column}
    (hc : c ∈ (e.table numeric ordered).columns) :
    ∃ f, c.StandsFor ps f ∧
      f.HasVector ps e.rows (fun i => e.value (e.place ordered i)) c.bits := by
  rw [columns_table, List.mem_append, List.mem_map, List.mem_map] at hc
  rcases hc with ⟨⟨n, bits⟩, hmem, rfl⟩ | ⟨entry, hmem, rfl⟩
  · obtain ⟨hn, hvector⟩ := h.hasVector_simple hmem
    exact ⟨_, .simple rfl hn, hvector.arrange ordered⟩
  · obtain ⟨p, hp, hgives, hvector⟩ := exists_of_forall₂ h.vectors hmem
    exact ⟨_, .compound (List.mem_of_mem_filter hp) (column_belongsTo hgives),
      hvector.arrange ordered⟩

/-- The vectors of the table of a text run over its rows. -/
lemma Table.size_of_ok {numeric ordered : Bool} {text : String} {t : Table}
    (h : Table.ofText numeric ordered text = .ok t) : ∀ c ∈ t.columns, c.bits.size = t.rows := by
  obtain ⟨ps, e, -, -, he, rfl⟩ := Table.exists_isOf h
  intro c hc
  obtain ⟨f, -, hvector⟩ := he.exists_formula ordered hc
  exact hvector.size

end Propositional
