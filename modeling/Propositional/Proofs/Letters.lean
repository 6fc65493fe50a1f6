/-
Letters for truth values, as numbers with some letters pinned.

* `Reading.ofSource_mode`, `Request.ofText_mode`: a text without numbers is read in the same way
  in both modes.
* `pinned?`: the letters that stand for truth values; `constant?_letters` compares the constants
  of the two modes.
* `Bits.IsPinned`: a row in which the pinned letters have their values, and the other names those
  of a given row; `Bits.existsUnique_isPinned` finds it, and `Evaluation.IsOf.value_pinned` says
  that the rows of the enumeration with letters are the pinned ones of that with numbers.
* `Table.Pins`: two tables of which one is the other with pinned letters.
* `Table.ofText_letters`: so are the tables of a text without numbers in the two modes.
-/
import Propositional.Proofs.Extension

namespace Propositional

/-! ### Reading without numbers -/

variable {s : State} {t : Token} {ts : List Token}

/-- Only numbers are read differently where an operand starts. -/
lemma Phase.operand_mode (ht : t.kind ≠ .number) (stack : List Frame) :
    operand true stack t = operand false stack t := by
  rw [operand, operand]
  split <;> first | rfl | exact absurd ‹_› ht

namespace State

lemma accept_mode (ht : t.kind ≠ .number) : s.accept true t = s.accept false t := by
  rw [accept, accept]
  simp only [Phase.operand_mode ht]

lemma next_mode (ht : t.kind ≠ .number) : s.next true t = s.next false t := by
  rw [next, next, accept_mode ht]

lemma run_mode (hts : ∀ t ∈ ts, t.kind ≠ .number) (eof : Token) :
    s.run true ts eof = s.run false ts eof := by
  induction ts generalizing s with
  | nil => rfl
  | cons t ts ih =>
      rw [List.forall_mem_cons] at hts
      rw [run, run, next_mode hts.1]
      cases s.next false t with
      | error reading => rfl
      | ok s' => exact ih hts.2

end State

/-- A text without numbers is read in the same way in both modes. -/
lemma Reading.ofSource_mode {source : Source} (h : ∀ t ∈ source.tokens, t.kind ≠ .number) :
    ofSource true source = ofSource false source :=
  State.run_mode h source.eof

lemma Proposition.parse_mode {text : String}
    (h : ∀ t ∈ (Source.ofText text).tokens, t.kind ≠ .number) :
    parse true text = parse false text := by
  rw [parse, parse, Reading.ofSource_mode h]

/-- It is rejected in both modes for the same reason. -/
lemma Request.ofText_mode {text : String} {r : Rejection}
    (h : ∀ t ∈ (Source.ofText text).tokens, t.kind ≠ .number)
    (hr : ofText false text = .error r) : ofText true text = .error r := by
  rw [ofText, ofSource_eq, ofReading] at hr ⊢
  rw [Reading.ofSource_mode h]
  generalize Reading.ofSource false (.ofText text) = reading at hr ⊢
  split at hr
  · exact hr
  · split at hr
    · exact hr
    · exact hr
    · cases hr

/-! ### Pinned letters -/

/-- The truth value of a letter that stands for one. -/
def pinned? (n : String) : Option Bool :=
  if n = "F" ∨ n = "f" then some false else if n = "V" ∨ n = "v" then some true else none

/-- The constants among letters are the pinned letters and the constants among numbers, apart
from the numbers themselves. -/
lemma constant?_letters {n : String} (hzero : n ≠ "0") (hone : n ≠ "1") (b : Bool) :
    (constant? false n).getD b = (constant? true n).getD ((pinned? n).getD b) := by
  by_cases hbottom : n = "⊥"
  · subst hbottom
    rfl
  · by_cases htop : n = "⊤"
    · subst htop
      rfl
    · simp [constant?, pinned?, hzero, hone, hbottom, htop]

/-- A single piece that is a digit is a number. -/
lemma Token.IsPiece.kind_of_digit {kind : Token.Kind} {n : String} (h : Token.IsPiece kind n)
    (hn : n = "0" ∨ n = "1") : kind = .number := by
  obtain ⟨c, cs, htext, hm⟩ := h
  have hzero : Token.munch '0' [] = (some .number, 0) := by decide +kernel
  have hone : Token.munch '1' [] = (some .number, 0) := by decide +kernel
  rcases hn with rfl | rfl
  · obtain ⟨rfl, rfl⟩ : '0' = c ∧ [] = cs := List.cons.inj htext
    exact Option.some.inj (congrArg Prod.fst (hm.symm.trans hzero))
  · obtain ⟨rfl, rfl⟩ : '1' = c ∧ [] = cs := List.cons.inj htext
    exact Option.some.inj (congrArg Prod.fst (hm.symm.trans hone))

/-- Without numbers no atom is a digit. -/
lemma Proposition.ne_digit {numeric : Bool} {text n : String} {ps : List Proposition}
    (h : parse numeric text = .ok ps)
    (htokens : ∀ t ∈ (Source.ofText text).tokens, t.kind ≠ .number) (hn : n ∈ atoms ps) :
    n ≠ "0" ∧ n ≠ "1" := by
  obtain ⟨is, his, rfl⟩ := (Reading.result_eq_ok_iff _ _).mp h
  obtain ⟨p, hp, hpn⟩ := mem_atoms.mp hn
  obtain ⟨t, ht, -, rfl⟩ := is.exists_of_mem hp (.inr hpn)
  rw [his] at ht
  rw [← not_or]
  exact fun hdigit => htokens t ht ((Token.isPiece_of_mem ht).kind_of_digit hdigit)

namespace Bits

variable {ns : List String} {i k : ℕ}

/-- A row whose binary digits are those of another row, except that the names of pinned letters
have the values of these.  The first name has the highest digit. -/
structure IsPinned (ns : List String) (i k : ℕ) : Prop where
  lt : k < 2 ^ ns.length
  digit : ∀ j n, ns[j]? = some n →
    k.testBit (ns.length - 1 - j) = (pinned? n).getD (i.testBit (ns.length - 1 - j))

/-- Every row has a pinned one. -/
lemma existsUnique_isPinned (hns : ns.Nodup) (hi : i < 2 ^ ns.length) :
    ∃! k, IsPinned ns i k := by
  have hlt := rowOf_lt ns fun n => (pinned? n).getD (assigned ns i n)
  refine ⟨_, ⟨hlt, fun j n hn => ?_⟩, fun k hk => ?_⟩
  · rw [← assigned_eq_testBit hns hlt hn, assigned_rowOf _ (List.mem_of_getElem? hn),
      assigned_eq_testBit hns hi hn]
  · refine eq_of_testBit hk.lt hlt fun j hj => ?_
    have hn : ns[j]? = some ns[j] := List.getElem?_eq_getElem hj
    rw [hk.digit j _ hn, ← assigned_eq_testBit hns hlt hn,
      assigned_rowOf _ (List.mem_of_getElem? hn), assigned_eq_testBit hns hi hn]

end Bits

/-! ### Tables with pinned letters -/

namespace Table

/-- The names of the simple propositions of a table. -/
def simpleNames (t : Table) : List String :=
  (t.columns.filter fun c => c.kind = .simple).map Column.name

/-- Where a table shows a row of the enumeration. -/
def place (t : Table) (i : ℕ) : ℕ := if t.ordered then i else t.rows - 1 - i

/-- A table has a column for a defined name, with the truth values of its formula. -/
def Defines (ps : List Proposition) (t : Table) (p : Proposition) (n : String) : Prop :=
  ∃ c ∈ t.columns, c.name = n ∧ c.kind = .named ∧
    ∀ i < t.rows, ∀ b, c.bits[i]? = some b ↔ p.formula.Means ps (t.simpleBit i) b

/-- A table with letters is the one with numbers, where the letters that stand for truth values
are pinned. -/
structure Pins (ps : List Proposition) (t u : Table) : Prop where
  rows : t.rows = u.rows
  rows_eq : t.rows = 2 ^ t.simpleNames.length
  sorted : t.simpleNames.Pairwise (· < ·)
  headings : t.columns.map Column.heading = u.columns.map Column.heading
  /-- Every row of the enumeration has a pinned one, and shows it. -/
  row : ∀ i < t.rows, ∃! k, Bits.IsPinned t.simpleNames i k
  bits : ∀ i < t.rows, ∀ k, Bits.IsPinned t.simpleNames i k → List.Forall₂
    (fun c d => ∃ b, c.bits[t.place i]? = some b ∧ d.bits[u.place k]? = some b) t.columns u.columns
  /-- A letter that is defined is not pinned. -/
  defined : ∀ p ∈ ps, ∀ n, p.name = some n →
    n ∉ t.simpleNames ∧ t.Defines ps p n ∧ u.Defines ps p n

end Table

namespace Evaluation.IsOf

variable {numeric ordered : Bool} {ps : List Proposition} {d e : Evaluation} {n : String} {i k : ℕ}

lemma simpleNames_table (h : e.IsOf numeric ps) (ordered : Bool) :
    (e.table numeric ordered).simpleNames = Proposition.simple ps := by
  have hsimple : (e.simple.map (simpleColumn ordered)).filter (fun c => c.kind = .simple) =
      e.simple.map (simpleColumn ordered) := by
    refine List.filter_eq_self.mpr fun c hc => ?_
    obtain ⟨entry, -, rfl⟩ := List.mem_map.mp hc
    rfl
  have hcompounds : (e.compounds.map (column ordered)).filter (fun c => c.kind = .simple) = [] := by
    refine List.filter_eq_nil_iff.mpr fun c hc => ?_
    obtain ⟨entry, -, rfl⟩ := List.mem_map.mp hc
    simpa using kind_column entry
  rw [Table.simpleNames, columns_table, List.filter_append, hsimple, hcompounds, List.append_nil,
    List.map_map, ← h.map_fst_simple]
  rfl

/-- A defined name has a column with the truth values of its formula. -/
lemma defines (h : e.IsOf numeric ps) (ordered : Bool) {p : Proposition} (hp : p ∈ ps)
    (hn : p.name = some n) : (e.table numeric ordered).Defines ps p n := by
  have hlisted : p ∈ Proposition.listed ps :=
    List.mem_filter.mpr ⟨hp, by rw [Proposition.isListed, hn]; rfl⟩
  obtain ⟨entry, hentry, hgives, hvector⟩ := exists_of_forall₂ h.vectors.flip hlisted
  have hbelongs : (column ordered entry).BelongsTo p := column_belongsTo hgives
  refine ⟨column ordered entry, List.mem_append_right _ (List.mem_map_of_mem hentry),
    hbelongs.name n hn, ?_, fun i hi b => ?_⟩
  · rw [hbelongs.kind, hn]
    rfl
  · rw [simpleBit_table (fun entry hentry => (h.hasVector_simple hentry).2.size) hi]
    exact (hvector.arrange ordered).means i hi b

/-- A row with letters has the values of the pinned row with numbers. -/
lemma value_pinned (hd : d.IsOf false ps) (he : e.IsOf true ps)
    (hdigit : ∀ n ∈ Proposition.atoms ps, n ≠ "0" ∧ n ≠ "1") (hi : i < d.rows)
    (hk : Bits.IsPinned (Proposition.simple ps) i k) (hn : n ∈ Proposition.simple ps) :
    d.value i n = e.value k n := by
  obtain ⟨hzero, hone⟩ := hdigit n (Proposition.mem_simple.mp hn).1
  obtain ⟨j, hj⟩ := List.mem_iff_getElem?.mp hn
  have hnodup := Proposition.nodup_simple ps
  have hpinned : Bits.assigned (Proposition.simple ps) k n =
      (pinned? n).getD (Bits.assigned (Proposition.simple ps) i n) := by
    rw [Bits.assigned_eq_testBit hnodup hk.lt hj,
      Bits.assigned_eq_testBit hnodup (hd.rows ▸ hi) hj, hk.digit j n hj]
  rw [hd.value_eq hn hi, he.value_eq hn (he.rows ▸ hk.lt), hpinned,
    constant?_letters hzero hone]

/-- Columns with the same heading have the same truth value in a row with letters and in the
pinned row with numbers. -/
lemma exists_bit (hd : d.IsOf false ps) (he : e.IsOf true ps) {text : String}
    (hps : Proposition.parse false text = .ok ps)
    (hdigit : ∀ n ∈ Proposition.atoms ps, n ≠ "0" ∧ n ≠ "1") {c c' : Column}
    (hc : c ∈ (d.table false ordered).columns) (hc' : c' ∈ (e.table true ordered).columns)
    (hheading : c.heading = c'.heading) (hi : i < d.rows)
    (hk : Bits.IsPinned (Proposition.simple ps) i k) :
    ∃ b, c.bits[d.place ordered i]? = some b ∧ c'.bits[e.place ordered k]? = some b := by
  obtain ⟨f, hf, hvector⟩ := hd.exists_formula ordered hc
  obtain ⟨g, hg, hvector'⟩ := he.exists_formula ordered hc'
  obtain rfl := hf.eq hps (hg.of_heading hheading)
  have hk' : k < e.rows := he.rows ▸ hk.lt
  have hplace : d.place ordered i < d.rows := place_lt hi
  have hget := Array.getElem?_eq_getElem (hvector.size ▸ hplace : d.place ordered i < c.bits.size)
  refine ⟨_, hget, (hvector'.means _ (place_lt hk') _).mpr ?_⟩
  have hmeans := (hvector.means _ hplace _).mp hget
  rw [place_place ordered hi] at hmeans
  rw [place_place ordered hk']
  exact hmeans.mono (fun _ => id) (fun _ _ => id)
    (fun n hn => hd.value_pinned he hdigit hi hk hn) hf.atoms_subset

/-- The tables of a request without digits in the two modes. -/
lemma pins (hd : d.IsOf false ps) (he : e.IsOf true ps) {text : String}
    (hps : Proposition.parse false text = .ok ps)
    (hdigit : ∀ n ∈ Proposition.atoms ps, n ≠ "0" ∧ n ≠ "1") (ordered : Bool) :
    (d.table false ordered).Pins ps (e.table true ordered) := by
  have hnames := hd.simpleNames_table ordered
  have hheadings : (d.table false ordered).columns.map Column.heading =
      (e.table true ordered).columns.map Column.heading := by
    rw [hd.heading_columns, he.heading_columns]
  refine { rows := hd.rows.trans he.rows.symm, rows_eq := hnames ▸ hd.rows,
           sorted := hnames ▸ Proposition.sorted_simple ps, headings := hheadings,
           row := fun i hi => ?_, bits := fun i hi k hk => ?_,
           defined := fun p hp n hn => ⟨?_, hd.defines ordered hp hn, he.defines ordered hp hn⟩ }
  · rw [hnames]
    exact Bits.existsUnique_isPinned (Proposition.nodup_simple ps) (hd.rows ▸ hi)
  · rw [hnames] at hk
    exact forall₂_of_map_eq hheadings fun c hc c' hc' hheading =>
      hd.exists_bit he hps hdigit hc hc' hheading hi hk
  · rw [hnames]
    exact fun hmem => (Proposition.mem_simple.mp hmem).2 (Proposition.mem_names.mpr ⟨p, hp, hn⟩)

end Evaluation.IsOf

/-- **Letters are numbers with some letters pinned.**  A text without numbers is rejected in both
modes for the same reason, or it has a table in both.  These have the same columns, and every
row with letters is the row with numbers in which the simple propositions that are named by a
letter for a truth value have that value.  A letter that is the name of a compound is not
pinned. -/
theorem Table.ofText_letters (ordered : Bool) {text : String}
    (h : ∀ t ∈ (Source.ofText text).tokens, t.kind ≠ .number) :
    (∃ r, ofText false ordered text = .error (.rejected r) ∧
      ofText true ordered text = .error (.rejected r)) ∨
    ∃ ps t u, Proposition.parse false text = .ok ps ∧ Proposition.parse true text = .ok ps ∧
      ofText false ordered text = .ok t ∧ ofText true ordered text = .ok u ∧ t.Pins ps u := by
  cases hr : Request.ofText false text with
  | error r =>
      exact .inl ⟨r, ofText_of_error hr ordered, ofText_of_error (Request.ofText_mode h hr) ordered⟩
  | ok r =>
      obtain ⟨hps, hclash, -⟩ := Request.table_of_ok hr ordered
      have hps' := (Proposition.parse_mode h).trans hps
      obtain ⟨d, hd, ht⟩ := exists_evaluation hps hclash
      obtain ⟨e, he, hu⟩ := exists_evaluation hps' hclash
      exact .inr ⟨r.propositions, _, _, hps, hps', ht ordered, hu ordered,
        hd.pins he hps (fun n => Proposition.ne_digit hps h) ordered⟩

/-- A name that is defined again, a letter that is a disjunction and a name, and a letter that
stands for a truth value, with the rows in the opposite order. -/
theorem Table.ofText_letters_defined :
    (∀ t ∈ (Source.ofText "F = p v v, f -> F").tokens, t.kind ≠ .number) ∧
      ∃ ps t u, Proposition.parse false "F = p v v, f -> F" = .ok ps ∧
        Proposition.parse true "F = p v v, f -> F" = .ok ps ∧
        ofText false false "F = p v v, f -> F" = .ok t ∧
        ofText true false "F = p v v, f -> F" = .ok u ∧ t.Pins ps u := by
  have htokens : ∀ t ∈ (Source.ofText "F = p v v, f -> F").tokens, t.kind ≠ .number := by
    decide +kernel
  refine ⟨htokens, (ofText_letters false htokens).resolve_left ?_⟩
  rintro ⟨r, hr, -⟩
  have hok : (ofText false false "F = p v v, f -> F").isOk = true := by decide +kernel
  rw [hr] at hok
  cases hok

end Propositional
