/-
What the columns of a table are called, and how they are found.

* `Proposition.isListed_eq`: a proposition without a name gets a column unless it is a lone
  atom.
* `Compound.name_eq_of_getElem?`: the compounds without a name of their own are numbered
  without gaps.
* `Column.Titled`: the proposition whose text is the header of a column; it is readable.
* `Evaluation.IsOf.bits_eq_of_header_eq`, `Evaluation.IsOf.name_ne_header`: columns with the
  same header have the same vector, and no column is named like the header of another.
* `Table.exists_column`, `Table.lookup_byHeader`: what is found by a name or a header.
* `Table.ofText_headings`: the headings of the table of a text.
-/
import Propositional.Proofs.Columns

namespace Propositional

/-! ### Which propositions get a column -/

/-- Whether a formula is an atom and no more. -/
def Formula.isAtom : Formula → Bool
  | atom _ => true
  | _ => false

lemma Formula.isAtom_iff {f : Formula} : f.isAtom = true ↔ ∃ n, f = .atom n := by
  cases f <;> simp [isAtom]

namespace Proposition

variable {numeric : Bool} {text : String} {ps : List Proposition} {p : Proposition}

lemma isListed_eq (h : parse numeric text = .ok ps) (hp : p ∈ ps) :
    isListed ps p = (p.name.isSome || !p.formula.isAtom) := by
  have htext : (names ps ++ atoms ps).contains p.formula.text = p.formula.isAtom := by
    rw [Bool.eq_iff_iff, List.contains_iff_mem, Formula.isAtom_iff]
    constructor
    · intro hn
      exact ⟨_, formula_eq_atom h hp hn⟩
    · rintro ⟨n, hn⟩
      refine List.mem_append_right _ (mem_atoms.mpr ⟨p, hp, ?_⟩)
      rw [hn]
      exact List.mem_singleton_self n
  rw [isListed, htext]

/-- No lone atom without a name is among the propositions that get a column. -/
lemma ne_atom_of_listed (h : parse numeric text = .ok ps) (hp : p ∈ listed ps)
    (hname : p.name = none) (n : String) : p.formula ≠ .atom n := by
  obtain ⟨hp, hlisted⟩ := List.mem_filter.mp hp
  intro hformula
  rw [isListed_eq h hp, hname, Formula.isAtom_iff.mpr ⟨n, hformula⟩] at hlisted
  cases hlisted

lemma unreserved_text (h : parse numeric text = .ok ps) (hp : p ∈ ps) : Unreserved p.text := by
  rw [Proposition.text]
  cases hname : p.name with
  | none =>
      refine p.formula.unreserved_text fun n hn => unreserved h (.inr ?_)
      exact mem_atoms.mpr ⟨p, hp, hn⟩
  | some n =>
      have hn : Unreserved n := unreserved h (.inl (mem_names.mpr ⟨p, hp, hname⟩))
      exact (hn.append " = ").append p.formula.text

end Proposition

/-- The compounds without a name of their own have consecutive numbers. -/
lemma Compound.name_eq_of_getElem? {ps : List Proposition} {k j : ℕ} {c : Compound}
    (h : ((numbered k ps).filter Compound.anonymous)[j]? = some c) :
    c.name = anonymousName (k + j) := by
  induction ps generalizing k j with
  | nil => cases h
  | cons p ps ih =>
      rw [numbered] at h
      cases hname : p.name with
      | some n =>
          rw [hname, List.filter_cons_of_neg Bool.false_ne_true] at h
          exact ih h
      | none =>
          rw [hname, List.filter_cons_of_pos rfl] at h
          cases j with
          | zero => rw [← Option.some.inj h, Nat.add_zero]
          | succ j => rw [ih h, Nat.add_assoc, Nat.add_comm 1]

/-! ### Headers -/

/-- The proposition whose text is the header of a column: that of a simple proposition, or the
one that the column belongs to. -/
inductive Column.Titled (ps : List Proposition) (c : Column) : Proposition → Prop
  | simple (hkind : c.kind = .simple) (hheader : c.header = c.name)
      (hn : c.name ∈ Proposition.simple ps) : Titled ps c (.mention c.name)
  | compound {p : Proposition} (hp : p ∈ Proposition.listed ps) (hc : c.BelongsTo p)
      (hname : p.name = none → ∃ k, c.name = anonymousName k) : Titled ps c p

namespace Column.Titled

variable {numeric : Bool} {text : String} {ps : List Proposition} {c : Column} {p : Proposition}

lemma header_eq (h : c.Titled ps p) : c.header = p.text := by
  cases h with
  | simple _ hheader => exact hheader
  | compound _ hc => exact hc.header

lemma standsFor (h : c.Titled ps p) : c.StandsFor ps p.formula := by
  cases h with
  | simple hkind _ hn => exact .simple hkind hn
  | compound hp hc => exact .compound (List.mem_of_mem_filter hp) hc

lemma readable (h : c.Titled ps p) (hps : Proposition.parse numeric text = .ok ps) :
    p.Readable := by
  cases h with
  | simple _ _ hn => exact Proposition.readable_mention hps (.inr (Proposition.mem_simple.mp hn).1)
  | compound hp => exact Proposition.readable hps (List.mem_of_mem_filter hp)

lemma unreserved (h : c.Titled ps p) (hps : Proposition.parse numeric text = .ok ps) :
    Unreserved c.header := by
  rw [h.header_eq]
  cases h with
  | simple _ _ hn => exact Proposition.unreserved hps (.inr (Proposition.mem_simple.mp hn).1)
  | compound hp => exact Proposition.unreserved_text hps (List.mem_of_mem_filter hp)

/-- A column has a name of the request or a generated one. -/
lemma name_cases (h : c.Titled ps p) :
    (c.name ∈ Proposition.names ps ∨ c.name ∈ Proposition.atoms ps) ∨
      ∃ k, c.name = anonymousName k := by
  cases h with
  | simple _ _ hn => exact .inl (.inr (Proposition.mem_simple.mp hn).1)
  | compound hp hc hname =>
      cases hp' : p.name with
      | none => exact .inr (hname hp')
      | some n =>
          rw [← hc.name n hp'] at hp'
          exact .inl (.inl (Proposition.mem_names.mpr ⟨p, List.mem_of_mem_filter hp, hp'⟩))

/-- A column with the header of a name or an atom of the request is that of a simple
proposition. -/
lemma name_eq_header (h : c.Titled ps p) (hps : Proposition.parse numeric text = .ok ps)
    (hn : c.header ∈ Proposition.names ps ∨ c.header ∈ Proposition.atoms ps) :
    c.name = c.header := by
  -- its header is the text of a lone atom, which gets no column as a compound
  have hsame := (h.readable hps).same (Proposition.readable_mention hps hn) h.header_eq.symm
  cases h with
  | simple _ hheader => exact hheader.symm
  | compound hp => exact absurd hsame.formula (Proposition.ne_atom_of_listed hps hp hsame.name _)

end Column.Titled

lemma Formula.HasVector.unique {ps : List Proposition} {rows : ℕ} {v : ℕ → String → Option Bool}
    {f : Formula} {b b' : Bits} (h : f.HasVector ps rows v b) (h' : f.HasVector ps rows v b') :
    b = b' := by
  refine Array.ext (h.size.trans h'.size.symm) fun i hi hi' => ?_
  have hrow : i < rows := h.size ▸ hi
  have hmeans := (h.means i hrow _).mp (Array.getElem?_eq_getElem hi)
  have hget := (h'.means i hrow _).mpr hmeans
  rw [Array.getElem?_eq_getElem hi'] at hget
  exact (Option.some.inj hget).symm

namespace Evaluation.IsOf

variable {numeric ordered : Bool} {text : String} {ps : List Proposition} {e : Evaluation}
  {c d : Column}

/-- The header of every column is the text of a proposition. -/
lemma exists_titled (h : e.IsOf numeric ps) (hc : c ∈ (e.table numeric ordered).columns) :
    ∃ p, c.Titled ps p := by
  rw [columns_table, List.mem_append, List.mem_map, List.mem_map] at hc
  rcases hc with ⟨⟨n, bits⟩, hmem, rfl⟩ | ⟨entry, hmem, rfl⟩
  · exact ⟨_, .simple rfl rfl (h.hasVector_simple hmem).1⟩
  · obtain ⟨p, hp, hgives, -⟩ := exists_of_forall₂ h.vectors hmem
    refine ⟨p, .compound hp (column_belongsTo hgives) fun hnone => ?_⟩
    have hname := hgives.name
    rw [hnone] at hname
    exact hname

/-- Columns with the same header have the same vector. -/
lemma bits_eq_of_header_eq (h : e.IsOf numeric ps) (hps : Proposition.parse numeric text = .ok ps)
    (hc : c ∈ (e.table numeric ordered).columns) (hd : d ∈ (e.table numeric ordered).columns)
    (heq : c.header = d.header) : c.bits = d.bits := by
  obtain ⟨p, hp⟩ := h.exists_titled hc
  obtain ⟨q, hq⟩ := h.exists_titled hd
  have htext : p.text = q.text := by rw [← hp.header_eq, ← hq.header_eq, heq]
  have hsame := (hp.readable hps).same (hq.readable hps) htext
  obtain ⟨f, hf, hvector⟩ := h.exists_formula ordered hc
  obtain ⟨g, hg, hvector'⟩ := h.exists_formula ordered hd
  obtain rfl : f = g := by
    rw [hf.eq hps hp.standsFor, hg.eq hps hq.standsFor, hsame.formula]
  exact hvector.unique hvector'

/-- No column is named like the header of another. -/
lemma name_ne_header (h : e.IsOf numeric ps) (hps : Proposition.parse numeric text = .ok ps)
    (hclash : ∀ i, ¬ Proposition.Clash ps i) (hc : c ∈ (e.table numeric ordered).columns)
    (hd : d ∈ (e.table numeric ordered).columns) (hne : c ≠ d) : c.name ≠ d.header := by
  intro heq
  obtain ⟨p, hp⟩ := h.exists_titled hc
  obtain ⟨q, hq⟩ := h.exists_titled hd
  rcases hp.name_cases with hn | ⟨k, hk⟩
  · rw [heq] at hn
    have hname : c.name = d.name := heq.trans (hq.name_eq_header hps hn).symm
    have hnodup := h.nodup_names ordered hclash fun n => Proposition.unreserved hps
    exact hne (List.inj_on_of_nodup_map hnodup hc hd hname)
  · exact (hq.unreserved hps).ne_anonymousName k (heq.symm.trans hk)

lemma exists_belongsTo_iff (h : e.IsOf numeric ps) (hps : Proposition.parse numeric text = .ok ps)
    {p : Proposition} (hp : p ∈ ps) (hname : p.name = none) :
    (∃ n, p.formula = .atom n) ↔ ¬ ∃ c ∈ (e.table numeric ordered).columns, c.BelongsTo p := by
  constructor
  · rintro ⟨n, hn⟩ ⟨c, hc, hbelongs⟩
    -- the column is that of a listed proposition with the same text
    have hkind : c.kind ≠ .simple := by
      rw [hbelongs.kind, hname]
      exact Column.Kind.noConfusion
    obtain ⟨q, hq⟩ := h.exists_titled hc
    have htext : q.text = p.text := hq.header_eq.symm.trans hbelongs.header
    have hsame := (hq.readable hps).same (Proposition.readable hps hp) htext
    cases hq with
    | simple hsimple => exact hkind hsimple
    | compound hlisted =>
        exact Proposition.ne_atom_of_listed hps hlisted (hsame.name.trans hname) n
          (hsame.formula.trans hn)
  · intro hnone
    by_contra hatom
    have hlisted : p ∈ Proposition.listed ps := by
      refine List.mem_filter.mpr ⟨hp, ?_⟩
      rw [← Formula.isAtom_iff, Bool.not_eq_true] at hatom
      rw [Proposition.isListed_eq hps hp, hatom]
      exact Bool.or_true _
    obtain ⟨entry, hentry, hgives, -⟩ := exists_of_forall₂ h.vectors.flip hlisted
    exact hnone ⟨column ordered entry, List.mem_append_right _ (List.mem_map_of_mem hentry),
      column_belongsTo hgives⟩

/-- The compounds without a name of their own are named by their numbers. -/
lemma name_eq_anonymousName (h : e.IsOf numeric ps) {k : ℕ}
    (hc : ((e.compounds.map (column ordered)).filter fun c => c.kind = .anonymous)[k]? = some c) :
    c.name = anonymousName k := by
  have hkind : ((fun c : Column => decide (c.kind = .anonymous)) ∘ column ordered) =
      Compound.anonymous ∘ Prod.fst := by
    funext entry
    rw [Function.comp_apply, Function.comp_apply, column]
    cases entry.1.anonymous <;> rfl
  rw [List.filter_map, List.getElem?_map, Option.map_eq_some_iff] at hc
  obtain ⟨entry, hentry, rfl⟩ := hc
  have hnumber : ((Compound.numbered 0 (Proposition.listed ps)).filter
      Compound.anonymous)[k]? = some entry.1 := by
    rw [← h.compounds, List.filter_map, List.getElem?_map, ← hkind, hentry]
    rfl
  rw [← Nat.zero_add k]
  exact Compound.name_eq_of_getElem? hnumber

end Evaluation.IsOf

/-! ### Finding a column -/

namespace Table

variable {t : Table} {n : String}

lemma exists_column (h : ∃ c ∈ t.columns, c.name = n ∨ c.header = n) :
    ∃ d ∈ t.columns, t.column n = .ok d ∧ (d.name = n ∨ d.header = n) := by
  obtain ⟨c, hc, hn⟩ := h
  rw [column]
  cases hfind : t.columns.find? fun c => c.name == n || c.header == n with
  | none =>
      have hnone := List.find?_eq_none.mp hfind c hc
      simp [hn] at hnone
  | some d =>
      have hd := List.find?_some hfind
      rw [Bool.or_eq_true, beq_iff_eq, beq_iff_eq] at hd
      exact ⟨d, List.mem_of_find?_eq_some hfind, rfl, hd⟩

/-- What is put under a header is found there, and nothing else changes. -/
lemma lookup_put (header : String) (bits : Bits) (vectors : List (String × Bits)) :
    (byHeader.put header bits vectors).lookup n =
      if n = header then some bits else vectors.lookup n := by
  induction vectors with
  | nil =>
      rw [byHeader.put, List.lookup_cons]
      by_cases heq : n = header
      · rw [if_pos heq, heq, beq_self_eq_true]
      · rw [if_neg heq, beq_eq_false_iff_ne.mpr heq]
  | cons entry vectors ih =>
      rw [byHeader.put]
      by_cases hentry : entry.1 = header
      · rw [if_pos hentry, List.lookup_cons, List.lookup_cons, hentry]
        by_cases heq : n = header
        · rw [if_pos heq, heq, beq_self_eq_true]
        · rw [if_neg heq, beq_eq_false_iff_ne.mpr heq]
      · rw [if_neg hentry, List.lookup_cons, List.lookup_cons, ih]
        by_cases heq : n = entry.1
        · rw [heq, beq_self_eq_true, if_neg hentry, if_neg hentry]
        · rw [beq_eq_false_iff_ne.mpr heq]

/-- A header has the vector of its columns, where these all have the same. -/
lemma lookup_byHeader {bits : Bits} (h : ∃ c ∈ t.columns, c.header = n)
    (hbits : ∀ c ∈ t.columns, c.header = n → c.bits = bits) :
    t.byHeader.lookup n = some bits := by
  rw [byHeader]
  generalize t.columns = cs at h hbits
  induction cs using List.reverseRecOn with
  | nil =>
      obtain ⟨c, hc, -⟩ := h
      cases hc
  | append_singleton cs d ih =>
      rw [List.foldl_append, List.foldl_cons, List.foldl_nil, lookup_put]
      by_cases heq : n = d.header
      · rw [if_pos heq, hbits d (List.mem_append_right _ (List.mem_singleton_self d)) heq.symm]
      · rw [if_neg heq]
        obtain ⟨c, hc, hn⟩ := h
        have hc' : c ∈ cs := by
          refine (List.mem_append.mp hc).resolve_right fun hd => heq ?_
          rw [← hn, List.mem_singleton.mp hd]
        exact ih ⟨c, hc', hn⟩ fun c hc => hbits c (List.mem_append_left _ hc)

/-- The headings of a table: which columns there are, what they are called, and that each is
found by what it is called. -/
structure Headed (ps : List Proposition) (t : Table) (simple compounds : List Column) : Prop
    extends Parts ps t simple compounds where
  header : ∀ c ∈ simple, c.header = c.name
  /-- One column for each other proposition, in order; a lone atom without a name has none. -/
  belongs : List.Forall₂ (fun p c => c.BelongsTo p)
    (ps.filter fun p => p.name.isSome || !p.formula.isAtom) compounds
  lone : ∀ p ∈ ps, p.name = none →
    ((∃ n, p.formula = .atom n) ↔ ¬ ∃ c ∈ t.columns, c.BelongsTo p)
  /-- The columns without a name of their own are numbered without gaps. -/
  numbered : ∀ k c, (compounds.filter fun c => c.kind = .anonymous)[k]? = some c →
    c.name = anonymousName k
  nodup : (t.columns.map Column.name).Nodup
  bits : ∀ c ∈ t.columns, ∀ d ∈ t.columns, c.header = d.header → c.bits = d.bits
  apart : ∀ c ∈ t.columns, ∀ d ∈ t.columns, c ≠ d → c.name ≠ d.header
  /-- A column is found by its name, and its vector by its header. -/
  byName : ∀ c ∈ t.columns, t.column c.name = .ok c
  vector : ∀ c ∈ t.columns, ∃ d, t.column c.header = .ok d ∧ d.bits = c.bits
  entry : ∀ c ∈ t.columns, t.byHeader.lookup c.header = some c.bits

end Table

/-- The headings of the table of an evaluation. -/
lemma Evaluation.IsOf.headed {numeric : Bool} {text : String} {ps : List Proposition}
    {e : Evaluation} (h : e.IsOf numeric ps) (hps : Proposition.parse numeric text = .ok ps)
    (hclash : ∀ i, ¬ Proposition.Clash ps i) (ordered : Bool) :
    (e.table numeric ordered).Headed ps (e.simple.map (simpleColumn ordered))
      (e.compounds.map (column ordered)) := by
  have hnodup := h.nodup_names ordered hclash fun n => Proposition.unreserved hps
  have hbits : ∀ c ∈ (e.table numeric ordered).columns,
      ∀ d ∈ (e.table numeric ordered).columns, c.header = d.header → c.bits = d.bits :=
    fun c hc d hd => h.bits_eq_of_header_eq hps hc hd
  have hapart : ∀ c ∈ (e.table numeric ordered).columns,
      ∀ d ∈ (e.table numeric ordered).columns, c ≠ d → c.name ≠ d.header :=
    fun c hc d hd => h.name_ne_header hps hclash hc hd
  refine { toParts := h.parts ordered, header := fun c hc => ?_, belongs := ?_,
           lone := fun p hp hname => h.exists_belongsTo_iff hps hp hname,
           numbered := fun k c => h.name_eq_anonymousName, nodup := hnodup, bits := hbits,
           apart := hapart, byName := fun c hc => ?_, vector := fun c hc => ?_,
           entry := fun c hc => ?_ }
  · obtain ⟨entry, -, rfl⟩ := List.mem_map.mp hc
    rfl
  · have hlisted : Proposition.listed ps =
        ps.filter fun p => p.name.isSome || !p.formula.isAtom :=
      List.filter_congr fun p hp => Proposition.isListed_eq hps hp
    rw [← hlisted, List.forall₂_map_right_iff]
    exact h.vectors.imp fun p entry hentry => column_belongsTo hentry.1
  · obtain ⟨d, hd, hfound, hname | hheader⟩ := Table.exists_column ⟨c, hc, .inl rfl⟩
    · rw [hfound, List.inj_on_of_nodup_map hnodup hd hc hname]
    · by_cases hne : c = d
      · rw [hfound, hne]
      · exact absurd hheader.symm (hapart c hc d hd hne)
  · obtain ⟨d, hd, hfound, hname | hheader⟩ := Table.exists_column ⟨c, hc, .inr rfl⟩
    · by_cases hne : d = c
      · exact ⟨d, hfound, by rw [hne]⟩
      · exact absurd hname (hapart d hd c hc hne)
    · exact ⟨d, hfound, hbits d hd c hc hheader⟩
  · exact Table.lookup_byHeader ⟨c, hc, rfl⟩ fun d hd => hbits d hd c hc

/-- **What the columns of a table are called.**  The table of a text has one column for each
simple proposition and one for each proposition that has a name or is no lone atom, those
without a name numbered in order.  No two columns have the same name, and none is named like the
header of another; where two have the same header, they have the same vector.  So a column is
found by its name, and its vector by its header. -/
theorem Table.ofText_headings {numeric ordered : Bool} {text : String} {t : Table}
    (h : Table.ofText numeric ordered text = .ok t) :
    ∃ ps, Proposition.parse numeric text = .ok ps ∧
      ∃ simple compounds, t.Headed ps simple compounds := by
  obtain ⟨ps, e, hps, hclash, he, rfl⟩ := exists_isOf h
  exact ⟨ps, hps, _, _, he.headed hps hclash ordered⟩

/-- Names that occur alone, in brackets and twice. -/
theorem Table.ofText_headings_twice :
    ∃ t, Table.ofText true false "p = a, a, p, (a), p & 1, (a)" = .ok t ∧
      ∃ ps, Proposition.parse true "p = a, a, p, (a), p & 1, (a)" = .ok ps ∧
        ∃ simple compounds, t.Headed ps simple compounds :=
  have h : Table.ofText true false "p = a, a, p, (a), p & 1, (a)" =
      .ok ⟨[⟨"1", "1", #[true, true, true, true], .simple⟩,
        ⟨"a", "a", #[true, false, true, false], .simple⟩,
        ⟨"p", "p = a", #[true, false, true, false], .named⟩,
        ⟨"$p0", "(a)", #[true, false, true, false], .anonymous⟩,
        ⟨"$p1", "p ∧ 1", #[true, false, true, false], .anonymous⟩,
        ⟨"$p2", "(a)", #[true, false, true, false], .anonymous⟩], 4, true, false⟩ := by
    decide +kernel
  ⟨_, h, Table.ofText_headings h⟩

end Propositional
