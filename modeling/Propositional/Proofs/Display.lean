/-
What the panel shows is one of three coherent displays.

* `isBlankText_iff`: the panel takes a text for blank exactly if it has no tokens.
* `Table.vectors`, `Bits.Covers`: the vectors of a table, each once, and the pairs of them
  between which strict entailment has no other; `Entailment.IsDiagram.adj_iff_covers` says
  that the edges of the diagram are these pairs.
* `GraphFigure.Draws`, `GraphFigure.exists_draws`: the drawing of the diagram, with a marker
  for each vector in a place of its own and a segment for each of these pairs.
* `Display.IsPrompt`, `Display.IsRejection`, `Display.IsTable`: the displays for no text, for
  a rejected text and for a table.
* `Session.present_shows`: the panel shows exactly one of them.
-/
import Propositional.Panel
import Propositional.Proofs.Drawing.Poset
import Propositional.Proofs.History

namespace Propositional

/-! ### Blank texts -/

/-- The panel takes a text for blank exactly if it has no tokens. -/
lemma isBlankText_iff {text : String} :
    isBlankText text = true ↔ (Source.ofText text).tokens = [] := by
  rw [isBlankText, List.all_eq_true, Source.tokens_ofText, Token.scanFrom_eq_nil_iff]

lemma Table.ofText_ne_of_blank {numeric ordered : Bool} {text : String} {t : Table}
    (h : (Source.ofText text).tokens = []) : Table.ofText numeric ordered text ≠ .ok t := by
  intro ht
  obtain ⟨ps, hps, -⟩ := Table.parse_of_ok ht
  rw [Proposition.parse, Reading.ofSource, h] at hps
  cases hps

/-! ### The order of the vectors -/

/-- The vectors of a table, each once, in the order in which they appear. -/
def Table.vectors (t : Table) : List Bits := (t.columns.map Column.bits).eraseDups

/-- A vector strictly entails another one, and none of the list lies between. -/
def Bits.Covers (vectors : List Bits) (i j : ℕ) : Prop :=
  ∃ a b, vectors[i]? = some a ∧ vectors[j]? = some b ∧ a.StrictlyEntails b ∧
    ¬ ∃ c ∈ vectors, a.StrictlyEntails c ∧ c.StrictlyEntails b

namespace Entailment

variable {t : Table} {r : Entailment} {i j n : ℕ}

lemma map_bits_classes (t : Table) : (ofTable t).classes.map EquivalenceClass.bits = t.vectors :=
  EquivalenceClass.map_bits_ofColumns t.columns

/-- There is an edge from each vector to those that it strictly entails. -/
lemma adj_iff_vectors (hsize : ∀ c ∈ t.columns, c.bits.size = n) :
    (ofTable t).graph.Adj i j ↔ ∃ a b, t.vectors[i]? = some a ∧ t.vectors[j]? = some b ∧
      a.StrictlyEntails b := by
  rw [adj_iff hsize, ← map_bits_classes, List.getElem?_map, List.getElem?_map]
  constructor
  · rintro ⟨k, l, hk, hl, hentails⟩
    exact ⟨k.bits, l.bits, by rw [hk]; rfl, by rw [hl]; rfl, hentails⟩
  · rintro ⟨a, b, ha, hb, hentails⟩
    obtain ⟨k, hk, rfl⟩ := Option.map_eq_some_iff.mp ha
    obtain ⟨l, hl, rfl⟩ := Option.map_eq_some_iff.mp hb
    exact ⟨k, l, hk, hl, hentails⟩

/-- The edges of the diagram lead from each vector to the next ones. -/
lemma IsDiagram.adj_iff_covers (h : (ofTable t).IsDiagram r)
    (hsize : ∀ c ∈ t.columns, c.bits.size = n) : r.graph.Adj i j ↔ Bits.Covers t.vectors i j := by
  rw [h.covers]
  simp only [adj_iff_vectors hsize]
  constructor
  · rintro ⟨⟨a, b, ha, hb, hab⟩, hnone⟩
    refine ⟨a, b, ha, hb, hab, ?_⟩
    rintro ⟨c, hc, hac, hcb⟩
    obtain ⟨k, hk⟩ := List.mem_iff_getElem?.mp hc
    exact hnone ⟨k, ⟨a, c, ha, hk, hac⟩, c, b, hk, hb, hcb⟩
  · rintro ⟨a, b, ha, hb, hab, hnone⟩
    refine ⟨⟨a, b, ha, hb, hab⟩, ?_⟩
    rintro ⟨k, ⟨a', c, ha', hk, hac⟩, c', b', hk', hb', hcb⟩
    obtain rfl : a = a' := Option.some.inj (ha.symm.trans ha')
    obtain rfl : b = b' := Option.some.inj (hb.symm.trans hb')
    obtain rfl : c = c' := Option.some.inj (hk.symm.trans hk')
    exact hnone ⟨c, List.mem_of_getElem? hk, hac, hcb⟩

lemma IsDiagram.acyclic {e : Entailment} (he : e.IsPoset) (h : e.IsDiagram r) :
    r.graph.IsSound ∧ r.graph.Acyclic :=
  ⟨h.reduction.isSound he.isSound, h.reduction.acyclic he.acyclic⟩

end Entailment

/-! ### Figures -/

/-- A drawing of the order of the vectors of a table. -/
structure GraphFigure.Draws (t : Table) (place : ℕ → Point) (pairs : List (ℕ × ℕ))
    (figure : GraphFigure) : Prop where
  /-- There is a marker for each vector, in a place of its own. -/
  nodes : figure.nodes = some ((List.range t.vectors.length).map place)
  apart : ∀ i < t.vectors.length, ∀ j < t.vectors.length, place i = place j → i = j
  /-- The places are those of the layers of any reduction along any order. -/
  layers : ∀ graph order, (Entailment.ofTable t).graph.IsReduction graph → graph.IsOrder order →
    ∀ i < t.vectors.length, (graph.drawnAlong order).lookup i = some (place i)
  /-- The label of a marker names the columns with the vector. -/
  labels : figure.labels = t.vectors.map fun b =>
    " ≡ ".intercalate ((t.columns.filter fun c => c.bits = b).map Column.header)
  /-- There is a segment for each vector and a next one. -/
  segments : figure.segments = some (pairs.map fun e => (place e.1, place e.2))
  edgeCount : figure.edgeCount = pairs.length
  nodup : pairs.Nodup
  covers : ∀ i j, (i, j) ∈ pairs ↔ Bits.Covers t.vectors i j

/-- The diagram of a table is drawn in layers. -/
lemma GraphFigure.exists_draws [Digraph.Library ℕ] [Digraph.LawfulLibrary ℕ] {t : Table} {n : ℕ}
    (hsize : ∀ c ∈ t.columns, c.bits.size = n) (g : Glyphs) (title : Option String) :
    ∃ r, (Entailment.ofTable t).reduction = .ok r ∧
      ∃ place pairs, (GraphFigure.ofEntailment r .layers g title).Draws t place pairs := by
  have hposet := Entailment.isPoset_ofTable hsize
  obtain ⟨r, hr, hdiagram⟩ := hposet.exists_diagram
  obtain ⟨level, top, position, hlayering, -, hreduced⟩ := hposet.exists_drawing
  have hdrawn : r.DrawnAt position := by
    rw [hdiagram.eq]
    exact hreduced r.graph hdiagram.reduction
  have hlength : r.classes.length = t.vectors.length := by
    rw [hdiagram.classes, ← Entailment.map_bits_classes, List.length_map]
  have hnode : ∀ {i : ℕ}, i < t.vectors.length → i ∈ (Entailment.ofTable t).graph.nodes := by
    intro i hi
    rwa [← hdiagram.nodes, hdrawn.nodes, List.mem_range, hlength]
  refine ⟨r, hr, fun i => .ofPair (position i), r.graph.edges, ?_⟩
  refine { nodes := ?_, apart := fun i hi j hj heq => ?_,
           layers := fun graph order hgraph horder i hi => ?_, labels := ?_,
           segments := hdrawn.segments g title, edgeCount := rfl, nodup := hdiagram.nodup,
           covers := fun i j => hdiagram.adj_iff_covers hsize }
  · rw [hdrawn.markers g title, hlength]
  · obtain ⟨hx, hy⟩ := Point.exact.inj heq
    exact hlayering.injective hposet.isSound (hnode hi) (hnode hj) (Prod.ext hx hy)
  · have hlayered : graph.layered order = order.map fun i => (i, position i) :=
      (hreduced graph hgraph).layered order horder
    rw [Digraph.drawnAlong, hlayered, List.map_map]
    exact Digraph.lookup_map_self (horder.perm.mem_iff.mpr (hgraph.nodes ▸ hnode hi))
  · rw [ofEntailment, hdiagram.classes, Entailment.ofTable, EquivalenceClass.ofColumns_eq,
      List.map_map]
    rfl

/-! ### Displays -/

/-- The columns of a table that are true in all rows. -/
def Table.allTrue (t : Table) : List Column :=
  t.columns.filter fun c => ∀ i < t.rows, c.bits[i]? = some true

lemma Table.tautologies_eq {t : Table} (hsize : ∀ c ∈ t.columns, c.bits.size = t.rows) :
    t.tautologies = t.allTrue := by
  refine List.filter_congr fun c hc => ?_
  rw [Bool.eq_iff_iff, Column.isTautology_iff (hsize c hc), decide_eq_true_iff]

namespace Display

variable {numeric ordered : Bool} {text : Option String} {s s' : Session} {d : Display}

/-- Without a text nothing is shown, and the session is not changed. -/
structure IsPrompt (text : Option String) (s s' : Session) (d : Display) : Prop where
  blank : ∀ input ∈ text, (Source.ofText input).tokens = []
  table : ∃ message, d.table = .blank message
  graph : ∃ message, d.graph = .blank message
  status : d.status = ""
  errorLine : d.errorLine = ""
  session : s' = s

/-- For a rejected text the error line names the rejection and its place. -/
structure IsRejection (numeric ordered : Bool) (text : Option String) (input : String)
    (r : Rejection) (d : Display) : Prop where
  text_eq : text = some input
  tokens : (Source.ofText input).tokens ≠ []
  rejected : Table.ofText numeric ordered input = .error (.rejected r)
  table : ∃ message, d.table = .blank message
  graph : ∃ message, d.graph = .blank message
  status : d.status = ""
  errorLine : d.errorLine = "Error: " ++ r.message ++ " at line " ++
    toString r.token.start.line ++ ", column " ++ toString r.token.start.column

/-- For a table the status line tells its size and its tautologies, and both figures are
drawn. -/
structure IsTable (numeric ordered : Bool) (text : Option String) (g : Glyphs) (input : String)
    (t : Table) (d : Display) : Prop where
  text_eq : text = some input
  ok : Table.ofText numeric ordered input = .ok t
  errorLine : d.errorLine = ""
  status_ne : d.status ≠ ""
  status : d.status = toString t.columns.length ++ " columns, " ++ toString t.rows ++ " rows" ++
    if t.allTrue = [] then "" else
      " | tautologies: " ++ ", ".intercalate (t.allTrue.map Column.header)
  /-- The figure of the table has a cell for each row of each column. -/
  table : ∃ figure, d.table = .drawn figure ∧ figure.header = t.headers ∧
    figure.cells = t.columns.map (fun c => c.bits.toList.map g.glyph) ∧
      ∀ cells ∈ figure.cells, cells.length = t.rows
  graph : ∃ figure place pairs, d.graph = .drawn figure ∧ figure.Draws t place pairs

/-- The kinds of display. -/
inductive Kind where
  | prompt
  | rejection
  | table
  deriving DecidableEq, Repr

/-- A display of a kind for a text under options, and the session before it and after. -/
def Shows (numeric ordered : Bool) (text : Option String) (s s' : Session) (d : Display) :
    Kind → Prop
  | .prompt => d.IsPrompt text s s'
  | .rejection => ∃ input r, d.IsRejection numeric ordered text input r
  | .table => ∃ input t, d.IsTable numeric ordered text (.forMode numeric s.locale) input t

/-- The kind of display that a text calls for. -/
def kindOf (numeric ordered : Bool) : Option String → Kind
  | none => .prompt
  | some input =>
    if (Source.ofText input).tokens = [] then .prompt
    else if (Table.ofText numeric ordered input).isOk then .table
    else .rejection

/-- The text determines the kind of display. -/
lemma Shows.kind_eq {k : Kind} (h : d.Shows numeric ordered text s s' k) :
    k = kindOf numeric ordered text := by
  cases k with
  | prompt =>
      cases text with
      | none => rfl
      | some input => rw [kindOf, if_pos (h.blank input rfl)]
  | rejection =>
      obtain ⟨input, r, h⟩ := h
      rw [h.text_eq, kindOf, if_neg h.tokens, h.rejected]
      rfl
  | table =>
      obtain ⟨input, t, h⟩ := h
      rw [h.text_eq, kindOf, if_neg fun hblank => Table.ofText_ne_of_blank hblank h.ok, h.ok]
      rfl

/-- The status line of a table. -/
lemma statusOf_eq {t : Table} (hsize : ∀ c ∈ t.columns, c.bits.size = t.rows) :
    statusOf t = toString t.columns.length ++ " columns, " ++ toString t.rows ++ " rows" ++
      if t.allTrue = [] then "" else
        " | tautologies: " ++ ", ".intercalate (t.allTrue.map Column.header) := by
  rw [statusOf, Table.tautologies_eq hsize]
  cases t.allTrue with
  | nil => exact String.append_empty.symm
  | cons c columns =>
      rw [if_neg (List.cons_ne_nil c columns)]
      exact String.append_assoc

/-- The display of a table shows it. -/
lemma isTable_ofTable [Digraph.Library ℕ] [Digraph.LawfulLibrary ℕ] {input : String} {t : Table}
    (g : Glyphs) (h : Table.ofText numeric ordered input = .ok t) :
    ∃ d, ofTable t g = .ok d ∧ d.IsTable numeric ordered (some input) g input t := by
  have hsize := Table.size_of_ok h
  obtain ⟨r, hr, place, pairs, hdraws⟩ := GraphFigure.exists_draws hsize g none
  refine ⟨_, by rw [ofTable, hr, Except.map], ?_⟩
  refine { text_eq := rfl, ok := h, errorLine := rfl, status_ne := ?_,
           status := statusOf_eq hsize, table := ⟨_, rfl, rfl, rfl, ?_⟩,
           graph := ⟨_, place, pairs, rfl, hdraws⟩ }
  · rw [statusOf_eq hsize]
    intro hempty
    have hlength := congrArg String.length hempty
    simp at hlength
  · intro cells hcells
    obtain ⟨c, hc, rfl⟩ := List.mem_map.mp hcells
    rw [List.length_map, Array.length_toList, hsize c hc]

end Display

/-- **The panel shows one coherent display.** Whatever the session before, a text under any
options is shown: nothing if it has no tokens, else its rejection, or else its table with
the diagram of its entailments, whichever library finds the diagram and its layers. -/
theorem Session.present_shows [Digraph.Library ℕ] [Digraph.LawfulLibrary ℕ] (s : Session)
    (text : Option String) (numeric ordered : Setting) :
    ∃ d s', s.present text numeric ordered = (.ok d, s') ∧
      ∃! kind, d.Shows numeric.truthy ordered.truthy text s s' kind := by
  suffices h : ∃ d s', s.present text numeric ordered = (.ok d, s') ∧
      ∃ kind, d.Shows numeric.truthy ordered.truthy text s s' kind by
    obtain ⟨d, s', hpresent, kind, hshows⟩ := h
    exact ⟨d, s', hpresent, kind, hshows, fun k hk => hk.kind_eq.trans hshows.kind_eq.symm⟩
  have hprompt : (∀ input ∈ text, (Source.ofText input).tokens = []) →
      Display.prompt.IsPrompt text s s := fun h =>
    ⟨h, ⟨_, rfl⟩, ⟨_, rfl⟩, rfl, rfl, rfl⟩
  cases text with
  | none => exact ⟨_, s, rfl, .prompt, hprompt fun input h => by cases h⟩
  | some input =>
      rw [present]
      by_cases hblank : isBlankText input = true
      · rw [if_pos hblank]
        refine ⟨_, s, rfl, .prompt, hprompt fun input' h => ?_⟩
        obtain rfl := Option.some.inj h
        exact isBlankText_iff.mp hblank
      · rw [if_neg hblank]
        have htokens := mt isBlankText_iff.mpr hblank
        rcases compute_cases ((s.setMode numeric.truthy).setOrdered ordered.truthy) input with
          ⟨t, log, htable, hs⟩ | ⟨r, log, hrejected, hs⟩ <;> rw [hs]
        · obtain ⟨d, hd, hshows⟩ :=
            Display.isTable_ofTable (.forMode numeric.truthy s.locale) htable
          exact ⟨d, _, congrArg (·, _) hd, .table, input, t, hshows⟩
        · exact ⟨_, _, rfl, .rejection, input, r, rfl, htokens, hrejected, ⟨_, rfl⟩, ⟨_, rfl⟩,
            rfl, rfl⟩

/-- A text with a table, shown with the library that is given here. -/
theorem Session.present_shows_table :
    ∃ d s', (Session.new true true false "").present (some "p, q, p v q") (.bool true)
        (.bool true) = (.ok d, s') ∧
      ∃! kind, d.Shows true true (some "p, q, p v q") (Session.new true true false "") s' kind :=
  Session.present_shows (.new true true false "") (some "p, q, p v q") (.bool true) (.bool true)

end Propositional
