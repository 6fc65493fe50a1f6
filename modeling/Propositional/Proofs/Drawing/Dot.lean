/-
The text of a graph read again.

* `Dot.quoted`, `Dot.members`, `Dot.entry?`: a reader of quoted texts, of the headers in a label,
  and of the line of a node or an edge.
* `Entailment.plain_label`, `Entailment.members_label`: what does not stand in a label of written
  headers, and that these are read back from it.
* `Entailment.entry?_nodeLine`, `Entailment.entry?_edgeLine`: so are the lines of classes and
  edges.
* `Entailment.IsDot`: the lines of the text for some classes, and what is read from them;
  `Entailment.IsDot.eq_of_perm` says that they determine the classes and the edges.
* `Entailment.ofText_dot`: the text for the table of a text, with all edges or reduced.
-/
import Propositional.Drawing.Dot
import Propositional.Proofs.Characters
import Propositional.Proofs.Drawing.Poset
import Propositional.Proofs.Lines

namespace Propositional

/-- What holds of the characters of some texts and of a separator holds of those of the texts with
the separator between them. -/
lemma Text.forall_mem_intercalate {p : Char → Prop} {s : String} {ls : List String}
    (hs : ∀ c ∈ s.toList, p c) (h : ∀ l ∈ ls, ∀ c ∈ l.toList, p c) :
    ∀ c ∈ (s.intercalate ls).toList, p c := by
  rw [String.toList_intercalate]
  induction ls with
  | nil => exact List.forall_mem_nil _
  | cons l ls ih =>
      rw [List.forall_mem_cons] at h
      cases ls with
      | nil => simpa using h.1
      | cons m ls =>
          rw [List.map_cons, List.map_cons, List.intercalate_cons_cons, ← List.map_cons,
            List.forall_mem_append, List.forall_mem_append]
          exact ⟨⟨h.1, hs⟩, ih h.2⟩

lemma filterMap_eq_of_map {α β : Type} {f : α → Option β} {l : List α} {m : List β}
    (h : l.map f = m.map some) : l.filterMap f = m :=
  calc l.filterMap f = (l.map f).filterMap id := by rw [List.filterMap_map, Function.id_comp]
    _ = (m.map some).filterMap id := by rw [h]
    _ = m := by rw [List.filterMap_map, Function.id_comp, List.filterMap_some]

namespace Dot

/-! ### A reader -/

/-- The text up to the quotation mark that ends it, and what follows the mark.  A mark behind a
backslash belongs to the text. -/
def quoted : List Char → Option (List Char × List Char)
  | [] => none
  | '\x22' :: rest => some ([], rest)
  | '\\' :: '\x22' :: rest => (quoted rest).map fun (text, rest) => ('\x22' :: text, rest)
  | c :: rest => (quoted rest).map fun (text, rest) => (c :: text, rest)

/-- The pieces of a label between the signs of equivalence with spaces around them. -/
def members : List Char → List (List Char)
  | [] => [[]]
  | ' ' :: '≡' :: ' ' :: rest => [] :: members rest
  | c :: rest => (members rest).modifyHead (c :: ·)

/-- What a line of a graph declares. -/
inductive Entry where
  | node (id : ℕ) (members : List String)
  | edge (source target : ℕ)
  deriving DecidableEq, Repr

/-- Reads what follows the number of a node in the line of a node. -/
def node? (id : ℕ) (cs : List Char) : Option Entry :=
  (cs.dropPrefix? " [label=\x22".toList).bind fun cs => (quoted cs).bind fun (label, rest) =>
    if rest = "];".toList then some (.node id ((members label).map String.ofList)) else none

/-- Reads what follows the number of a node in the line of an edge. -/
def edge? (source : ℕ) (cs : List Char) : Option Entry :=
  (cs.dropPrefix? " -> n".toList).bind fun cs =>
    if (Text.number cs).2 = ";".toList then some (.edge source (Text.number cs).1) else none

/-- Reads a line. -/
def entry? (line : List Char) : Option Entry :=
  (line.dropPrefix? "  n".toList).bind fun cs =>
    (node? (Text.number cs).1 (Text.number cs).2).or (edge? (Text.number cs).1 (Text.number cs).2)

/-- The nodes and the edges of a text, in the order of its lines. -/
def entries (text : String) : List Entry := (Text.lines text).filterMap entry?

/-! ### Reading what is written -/

variable {cs rest : List Char}

/-- A text without marks and backslashes is read up to the mark that ends it. -/
lemma quoted_append (h : ∀ c ∈ cs, c ≠ '\x22' ∧ c ≠ '\\') :
    quoted (cs ++ '\x22' :: rest) = some (cs, rest) := by
  induction cs with
  | nil => rfl
  | cons c cs ih =>
      rw [List.forall_mem_cons] at h
      rw [List.cons_append, quoted, ih h.2]
      · rfl
      · exact h.1.1
      · intro rest hc
        exact absurd hc h.1.2

/-- A piece without the sign of equivalence is read with what follows it. -/
lemma members_append (hcs : '≡' ∉ cs) (hrest : ∀ c ∈ rest.head?, c ≠ '≡') :
    members (cs ++ rest) = (members rest).modifyHead (cs ++ ·) := by
  induction cs with
  | nil => exact (congrFun List.modifyHead_id _).symm
  | cons c cs ih =>
      rw [List.mem_cons, not_or] at hcs
      rw [List.cons_append, members, ih hcs.2, List.modifyHead_modifyHead]
      · rfl
      · -- the sign does not stand behind the first character
        rintro after - hafter
        cases cs with
        | nil => exact hrest '≡' (by simp [show rest = _ from hafter]) rfl
        | cons d cs => exact hcs.2 (by simp [(List.cons.inj hafter).1])

lemma members_intercalate {names : List (List Char)} (hne : names ≠ [])
    (h : ∀ name ∈ names, '≡' ∉ name) : members ([' ', '≡', ' '].intercalate names) = names := by
  induction names with
  | nil => exact absurd rfl hne
  | cons name names ih =>
      rw [List.forall_mem_cons] at h
      cases names with
      | nil =>
          have hlast : members (name ++ []) = [name ++ []] := members_append h.1 (by simp)
          rw [List.append_nil] at hlast
          rw [List.intercalate_singleton, hlast]
      | cons name' names =>
          rw [List.intercalate_cons_cons, List.append_assoc,
            members_append h.1 (by simp), List.cons_append, List.cons_append, List.cons_append,
            List.nil_append, members, ih (List.cons_ne_nil _ _) h.2]
          simp

/-- A header with a quotation mark would be written with a backslash. -/
example : entries "digraph G \x7b\n  n0 [label=\x22p ≡ \\\x22q\x22];\n  n12 -> n0;\n\x7d" =
    [.node 0 ["p", "\x22q"], .edge 12 0] := by decide +kernel

end Dot

namespace Entailment

variable {t : Table} {e : Entailment} {k : EquivalenceClass} {i j : ℕ}

/-! ### Lines -/

lemma plain_label (h : ∀ c ∈ k.members, Text.Written c.header) : ∀ d ∈ k.label.toList,
    d ∉ ['\x22', '\\', '\n', '\r'] ∧ (Text.isBlank d = true → d = ' ') := by
  have hother : (['\x22', '\\', '\n', '\r'].filter Text.isWritten) = [] := by decide +kernel
  refine Text.forall_mem_intercalate (fun d hd => ?_) (List.forall_mem_map.mpr fun c hc d hd => ?_)
  · have hsign : d = ' ' ∨ d = '≡' := by simpa [or_comm] using hd
    rcases hsign with rfl | rfl <;> decide +kernel
  · refine ⟨fun hmem => ?_, Text.eq_space_of_isWritten (h c hc d hd)⟩
    exact List.filter_eq_nil_iff.mp hother d hmem (h c hc d hd)

lemma members_label (hne : k.members ≠ []) (h : ∀ c ∈ k.members, Text.Written c.header) :
    (Dot.members k.label.toList).map String.ofList = k.members.map Column.header := by
  have hsign : ∀ name ∈ k.members.map fun c => c.header.toList, '≡' ∉ name := by
    intro name hname
    obtain ⟨c, hc, rfl⟩ := List.mem_map.mp hname
    exact (h c hc).not_mem (by decide +kernel)
  have hlabel : k.label.toList = [' ', '≡', ' '].intercalate (k.members.map fun c =>
      c.header.toList) := by
    rw [EquivalenceClass.label, String.toList_intercalate, List.map_map]
    rfl
  rw [hlabel, Dot.members_intercalate (mt List.map_eq_nil_iff.mp hne) hsign, List.map_map]
  exact List.map_congr_left fun c _ => String.ofList_toList

lemma toList_nodeLine (i : ℕ) (k : EquivalenceClass) :
    (nodeLine i k).toList = "  n".toList ++ (Nat.toDigits 10 i ++
      (" [label=\x22".toList ++ (k.label.toList ++ '\x22' :: "];".toList))) := by
  simp [nodeLine]

lemma toList_edgeLine (edge : ℕ × ℕ) :
    (edgeLine edge).toList = "  n".toList ++ (Nat.toDigits 10 edge.1 ++
      (" -> n".toList ++ (Nat.toDigits 10 edge.2 ++ ";".toList))) := by
  simp [edgeLine]

lemma entry?_nodeLine (hne : k.members ≠ []) (h : ∀ c ∈ k.members, Text.Written c.header)
    (i : ℕ) :
    Dot.entry? (nodeLine i k).toList = some (.node i (k.members.map Column.header)) := by
  have hlabel : ∀ d ∈ k.label.toList, d ≠ '\x22' ∧ d ≠ '\\' := by
    intro d hd
    have hmem := (plain_label h d hd).1
    rw [List.mem_cons, List.mem_cons, not_or, not_or] at hmem
    exact ⟨hmem.1, hmem.2.1⟩
  have hdigit : ∀ c ∈ (" [label=\x22".toList ++ (k.label.toList ++ '\x22' :: "];".toList)).head?,
      c.isDigit = false := Text.isDigit_of_mem_head? (c := ' ') (by decide) (by decide)
  have hnode : Dot.node? i (" [label=\x22".toList ++ (k.label.toList ++ '\x22' :: "];".toList)) =
      some (.node i (k.members.map Column.header)) := by
    rw [Dot.node?, List.dropPrefix?_append_of_beq _ (beq_self_eq_true _), Option.bind_some,
      Dot.quoted_append hlabel, Option.bind_some]
    dsimp only
    rw [if_pos rfl, members_label hne h]
  rw [Dot.entry?, toList_nodeLine, List.dropPrefix?_append_of_beq _ (beq_self_eq_true _),
    Option.bind_some, Text.number_toDigits i hdigit, hnode, Option.some_or]

lemma entry?_edgeLine (edge : ℕ × ℕ) :
    Dot.entry? (edgeLine edge).toList = some (.edge edge.1 edge.2) := by
  have hdigit : ∀ c ∈ (" -> n".toList ++ (Nat.toDigits 10 edge.2 ++ ";".toList)).head?,
      c.isDigit = false := Text.isDigit_of_mem_head? (c := ' ') (by decide) (by decide)
  have hnode : Dot.node? edge.1 (" -> n".toList ++ (Nat.toDigits 10 edge.2 ++ ";".toList)) =
      none := rfl
  have hend : ∀ c ∈ ";".toList.head?, c.isDigit = false := by
    intro c hc
    obtain rfl : ';' = c := by simpa using hc
    decide
  have hedge : Dot.edge? edge.1 (" -> n".toList ++ (Nat.toDigits 10 edge.2 ++ ";".toList)) =
      some (.edge edge.1 edge.2) := by
    rw [Dot.edge?, List.dropPrefix?_append_of_beq _ (beq_self_eq_true _), Option.bind_some,
      Text.number_toDigits edge.2 hend, if_pos rfl]
  rw [Dot.entry?, toList_edgeLine, List.dropPrefix?_append_of_beq _ (beq_self_eq_true _),
    Option.bind_some, Text.number_toDigits edge.1 hdigit, hnode, hedge, Option.none_or]

lemma not_mem_toDigits (i : ℕ) : '\n' ∉ Nat.toDigits 10 i :=
  fun h => absurd (Nat.isDigit_of_mem_toDigits (by decide) le_rfl h) (by decide)

lemma not_mem_nodeLine (h : '\n' ∉ k.label.toList) (i : ℕ) : '\n' ∉ (nodeLine i k).toList := by
  rw [toList_nodeLine]
  simp [not_mem_toDigits, h]

lemma not_mem_edgeLine (edge : ℕ × ℕ) : '\n' ∉ (edgeLine edge).toList := by
  rw [toList_edgeLine]
  simp [not_mem_toDigits]

/-! ### The text of a graph -/

/-- The entries of the classes, by their numbers. -/
def nodeEntries (e : Entailment) : List Dot.Entry :=
  e.classes.zipIdx.map fun p => .node p.2 (p.1.members.map Column.header)

/-- The entries of the edges. -/
def edgeEntries (e : Entailment) : List Dot.Entry :=
  e.graph.edges.map fun edge => .edge edge.1 edge.2

/-- The text of some classes and the edges between them. -/
structure IsDot (e : Entailment) (text : String) : Prop where
  /-- No label has a quotation mark, a backslash or a line break. -/
  labels : ∀ k ∈ e.classes, ∀ c ∈ k.label.toList,
    c ∉ ['\x22', '\\', '\n', '\r'] ∧ (Text.isBlank c = true → c = ' ')
  /-- Between the head and the end there are a line for each class and a line for each edge. -/
  lines : ∃ nodes edges,
    Text.lines text = ["digraph G \x7b".toList, "  rankdir = BT;".toList] ++ nodes ++ edges ++
      ["\x7d".toList] ∧
    nodes.map Dot.entry? = e.nodeEntries.map some ∧ edges.map Dot.entry? = e.edgeEntries.map some
  /-- The classes with their headers and the edges are read back. -/
  entries : Dot.entries text = e.nodeEntries ++ e.edgeEntries
  nodup : e.graph.edges.Nodup
  declared : ∀ i j, e.graph.Adj i j → i < e.classes.length ∧ j < e.classes.length

/-- The lines of the text, if no label is broken. -/
lemma lines_dot (h : ∀ k ∈ e.classes, '\n' ∉ k.label.toList) :
    Text.lines e.dot = ["digraph G \x7b".toList, "  rankdir = BT;".toList] ++
      (e.classes.zipIdx.map fun p => (nodeLine p.2 p.1).toList) ++
      (e.graph.edges.map fun edge => (edgeLine edge).toList) ++ ["\x7d".toList] := by
  have hbreaks : ∀ line ∈ e.dotLines, '\n' ∉ line.toList := by
    intro line hline
    rw [dotLines, List.mem_append, List.mem_append, List.mem_append, List.mem_map, List.mem_map,
      List.mem_singleton] at hline
    rcases hline with ((hhead | ⟨p, hp, rfl⟩) | ⟨edge, -, rfl⟩) | rfl
    · have hheads : ∀ line ∈ ["digraph G \x7b", "  rankdir = BT;"], '\n' ∉ line.toList := by decide
      exact hheads line hhead
    · have hk := List.mem_of_getElem? (List.mem_zipIdx_iff_getElem?.mp hp)
      exact not_mem_nodeLine (h _ hk) p.2
    · exact not_mem_edgeLine edge
    · decide
  rw [dot, Text.lines_intercalate (by simp [dotLines]) hbreaks, dotLines, List.map_append,
    List.map_append, List.map_append, List.map_map, List.map_map]
  rfl

/-- The text of classes with written headers. -/
lemma isDot_dot (hne : ∀ k ∈ e.classes, k.members ≠ [])
    (hwritten : ∀ k ∈ e.classes, ∀ c ∈ k.members, Text.Written c.header)
    (hnodup : e.graph.edges.Nodup)
    (hdeclared : ∀ i j, e.graph.Adj i j → i < e.classes.length ∧ j < e.classes.length) :
    e.IsDot e.dot := by
  have hlabels := fun k hk => plain_label (hwritten k hk)
  have hlines := e.lines_dot fun k hk hfeed => (hlabels k hk _ hfeed).1 (by decide)
  have hnodes : (e.classes.zipIdx.map fun p => (nodeLine p.2 p.1).toList).map Dot.entry? =
      e.nodeEntries.map some := by
    rw [nodeEntries, List.map_map, List.map_map]
    refine List.map_congr_left fun p hp => ?_
    have hk := List.mem_of_getElem? (List.mem_zipIdx_iff_getElem?.mp hp)
    rw [Function.comp_apply, Function.comp_apply, entry?_nodeLine (hne _ hk) (hwritten _ hk)]
  have hedges : (e.graph.edges.map fun edge => (edgeLine edge).toList).map Dot.entry? =
      e.edgeEntries.map some := by
    rw [edgeEntries, List.map_map, List.map_map]
    refine List.map_congr_left fun edge _ => ?_
    rw [Function.comp_apply, Function.comp_apply, entry?_edgeLine]
  -- the head and the end declare nothing
  have hends : ["digraph G \x7b".toList, "  rankdir = BT;".toList].filterMap Dot.entry? = [] ∧
      ["\x7d".toList].filterMap Dot.entry? = [] := by
    decide +kernel
  refine ⟨hlabels, ⟨_, _, hlines, hnodes, hedges⟩, ?_, hnodup, hdeclared⟩
  rw [Dot.entries, hlines, List.filterMap_append, List.filterMap_append, List.filterMap_append,
    hends.1, hends.2, filterMap_eq_of_map hnodes, filterMap_eq_of_map hedges, List.nil_append,
    List.append_nil]

namespace IsDot

variable {e' : Entailment} {text text' : String}

/-- A class is read with its number and its headers. -/
lemma node_mem_iff (h : e.IsDot text) {names : List String} :
    .node i names ∈ Dot.entries text ↔
      (e.classes.map fun k => k.members.map Column.header)[i]? = some names := by
  rw [h.entries, List.mem_append, nodeEntries, edgeEntries, List.getElem?_map,
    Option.map_eq_some_iff]
  constructor
  · rintro (hnode | hedge)
    · obtain ⟨p, hp, heq⟩ := List.mem_map.mp hnode
      obtain ⟨rfl, rfl⟩ := Dot.Entry.node.inj heq
      exact ⟨p.1, List.mem_zipIdx_iff_getElem?.mp hp, rfl⟩
    · obtain ⟨edge, -, heq⟩ := List.mem_map.mp hedge
      cases heq
  · rintro ⟨k, hk, rfl⟩
    exact .inl (List.mem_map.mpr ⟨(k, i), List.mem_zipIdx_iff_getElem?.mpr hk, rfl⟩)

lemma edge_mem_iff (h : e.IsDot text) : .edge i j ∈ Dot.entries text ↔ e.graph.Adj i j := by
  rw [h.entries, List.mem_append, nodeEntries, edgeEntries]
  constructor
  · rintro (hnode | hedge)
    · obtain ⟨p, -, heq⟩ := List.mem_map.mp hnode
      cases heq
    · obtain ⟨edge, hmem, heq⟩ := List.mem_map.mp hedge
      obtain ⟨rfl, rfl⟩ := Dot.Entry.edge.inj heq
      exact hmem
  · intro hmem
    exact .inr (List.mem_map.mpr ⟨(i, j), hmem, rfl⟩)

/-- Texts with the same lines, in whatever order, have the same classes and the same edges. -/
lemma eq_of_perm (h : e.IsDot text) (h' : e'.IsDot text')
    (hperm : (Text.lines text').Perm (Text.lines text)) :
    (e'.classes.map fun k => k.members.map Column.header) =
        (e.classes.map fun k => k.members.map Column.header) ∧
      ∀ i j, e'.graph.Adj i j ↔ e.graph.Adj i j := by
  have hentries : (Dot.entries text').Perm (Dot.entries text) := hperm.filterMap Dot.entry?
  refine ⟨List.ext_getElem? fun i => Option.ext fun names => ?_, fun i j => ?_⟩
  · rw [← h.node_mem_iff, ← h'.node_mem_iff, hentries.mem_iff]
  · rw [← h.edge_mem_iff, ← h'.edge_mem_iff, hentries.mem_iff]

end IsDot

/-! ### Tables -/

/-- The classes of a table with all entailments between them, or with those of a reduction. -/
inductive Orders (t : Table) : Entailment → Prop
  | full : Orders t (ofTable t)
  | reduced {graph : Digraph ℕ} (h : (ofTable t).graph.IsReduction graph)
      (hnodup : graph.edges.Nodup) : Orders t ((ofTable t).withGraph graph)

lemma Orders.isDot {numeric ordered : Bool} {request : String} (he : Orders t e)
    (h : Table.ofText numeric ordered request = .ok t) : e.IsDot e.dot := by
  have hposet := isPoset_ofTable (Table.size_of_ok h)
  have hgroups := EquivalenceClass.groups_ofColumns t.columns
  have hwritten : ∀ k ∈ (ofTable t).classes, ∀ c ∈ k.members, Text.Written c.header :=
    fun k hk c hc => (Table.written_header h (hgroups.of_mem hk hc).1).1
  have hdeclared : ∀ graph : Digraph ℕ, graph.IsSound →
      graph.nodes = List.range (ofTable t).classes.length → ∀ i j, graph.Adj i j →
        i < (ofTable t).classes.length ∧ j < (ofTable t).classes.length := by
    intro graph hsound hnodes i j hij
    obtain ⟨hi, hj⟩ := hsound.ends i j hij
    rw [hnodes, List.mem_range] at hi hj
    exact ⟨hi, hj⟩
  cases he with
  | full =>
      exact isDot_dot hgroups.ne_nil hwritten hposet.nodup (hdeclared _ hposet.isSound hposet.nodes)
  | reduced hreduction hnodup =>
      exact isDot_dot hgroups.ne_nil hwritten hnodup (hdeclared _
        (hreduction.isSound hposet.isSound) (hreduction.nodes.trans hposet.nodes))

/-- **A graph is read back from its text.**  For the table of a text, with all entailments or with
those of a reduction, the labels have no quotation marks, backslashes or line breaks, and the text
has a line for each class, in the order of their numbers, and a line for each edge between two of
them.  These lines give back the headers of the members of each class, and the edges.  So where
the texts for two tables have the same lines, in whatever order, the tables have classes with the
same headers and the same edges between them. -/
theorem ofText_dot {numeric ordered : Bool} {request : String}
    (h : Table.ofText numeric ordered request = .ok t) :
    (∃ r, (ofTable t).reduction = .ok r ∧ Orders t r) ∧
      ∀ e, Orders t e → e.IsDot e.dot ∧
        ∀ numeric ordered request t' e', Table.ofText numeric ordered request = .ok t' →
          Orders t' e' → (Text.lines e'.dot).Perm (Text.lines e.dot) →
            (e'.classes.map fun k => k.members.map Column.header) =
                (e.classes.map fun k => k.members.map Column.header) ∧
              ∀ i j, e'.graph.Adj i j ↔ e.graph.Adj i j := by
  refine ⟨?_, fun e he => ⟨he.isDot h, fun numeric' ordered' request' t' e' h' he' hperm => ?_⟩⟩
  · obtain ⟨r, hr, hdiagram⟩ := (isPoset_ofTable (Table.size_of_ok h)).exists_diagram
    refine ⟨r, hr, ?_⟩
    rw [hdiagram.eq]
    exact .reduced hdiagram.reduction hdiagram.nodup
  · exact (he.isDot h).eq_of_perm (he'.isDot h') hperm

/-- Two propositions that are equivalent, one of them by a sign that stands between headers. -/
theorem ofText_dot_equivalent :
    ∃ t, Table.ofText true true "p ≡ p, p | !p" = .ok t ∧
      (∃ r, (ofTable t).reduction = .ok r ∧ Orders t r) ∧
        ∀ e, Orders t e → e.IsDot e.dot ∧
          ∀ numeric ordered request t' e', Table.ofText numeric ordered request = .ok t' →
            Orders t' e' → (Text.lines e'.dot).Perm (Text.lines e.dot) →
              (e'.classes.map fun k => k.members.map Column.header) =
                  (e.classes.map fun k => k.members.map Column.header) ∧
                ∀ i j, e'.graph.Adj i j ↔ e.graph.Adj i j :=
  have h : Table.ofText true true "p ≡ p, p | !p" =
      .ok ⟨[⟨"p", "p", #[false, true], .simple⟩, ⟨"$p0", "p <-> p", #[true, true], .anonymous⟩,
        ⟨"$p1", "p ∨ ¬p", #[true, true], .anonymous⟩], 2, true, true⟩ := by
    decide +kernel
  ⟨_, h, ofText_dot h⟩

end Entailment

end Propositional
