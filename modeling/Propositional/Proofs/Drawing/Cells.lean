/-
What stands where in the grid of a table.

* `Table.barred`: a line of cells between bars; `Table.splitOn_barred` and
  `Table.drop_barred` find the cells again, by the bars and by their places.
* `Table.toList_centred`: the cell of a truth value; `Table.getElem?_cellsAt` is what stands in
  the line of a row from the bar of a column on.
* `Table.IsGrid`: the lines of a grid, and what is in them; `Table.IsGrid.columns_eq`: the
  headers and the vectors of a table are determined by it.
* `Table.ofText_grid`: the grid of the table of a text.
-/
import Propositional.Proofs.Characters
import Propositional.Proofs.Drawing.Grid
import Propositional.Proofs.Lines

namespace Propositional

/-- The glyphs of one character. -/
def Glyphs.ofChars (yes no : Char) : Glyphs := ⟨String.singleton yes, String.singleton no⟩

namespace Table

/-! ### Lines of cells -/

/-- A line of cells, with a bar before each of them and one behind the last. -/
def barred : List (List Char) → List Char
  | [] => ['|']
  | cell :: cells => '|' :: (cell ++ barred cells)

variable {cells : List (List Char)} {cell : List Char} {j k : ℕ}

lemma barred_eq (cells : List (List Char)) :
    barred cells = '|' :: cells.flatMap fun cell => cell ++ ['|'] := by
  induction cells with
  | nil => rfl
  | cons cell cells ih => simp [barred, ih]

lemma length_barred (cells : List (List Char)) :
    (barred cells).length = 1 + (cells.map fun cell => cell.length + 1).sum := by
  induction cells with
  | nil => rfl
  | cons cell cells ih =>
      rw [barred, List.length_cons, List.length_append, ih, List.map_cons, List.sum_cons]
      omega

lemma not_mem_barred {d : Char} (hd : d ≠ '|') (h : ∀ cell ∈ cells, d ∉ cell) :
    d ∉ barred cells := by
  rw [barred_eq, List.mem_cons, List.mem_flatMap]
  rintro (hbar | ⟨cell, hcell, hmem⟩)
  · exact hd hbar
  · rcases List.mem_append.mp hmem with hmem | hbar
    · exact h cell hcell hmem
    · exact hd (List.mem_singleton.mp hbar)

/-- Cells without bars are found between the bars. -/
lemma splitOn_barred (h : ∀ cell ∈ cells, '|' ∉ cell) :
    (barred cells).splitOn '|' = [] :: (cells ++ [[]]) := by
  have hfront : barred cells = [] ++ '|' :: cells.flatMap fun cell => cell ++ ['|'] :=
    barred_eq cells
  rw [hfront, List.splitOn_append_cons_self_of_not_mem List.not_mem_nil, Text.splitOn_flatMap h]

lemma drop_barred (hj : j ≤ cells.length) :
    (barred cells).drop ((cells.take j).map fun cell => cell.length + 1).sum =
      barred (cells.drop j) := by
  induction cells generalizing j with
  | nil => simp
  | cons cell cells ih =>
      cases j with
      | zero => rfl
      | succ j =>
          have hsum : ((List.take (j + 1) (cell :: cells)).map fun cell => cell.length + 1).sum =
              cell.length + ((cells.take j).map fun cell => cell.length + 1).sum + 1 := by
            rw [List.take_succ_cons, List.map_cons, List.sum_cons]
            omega
          rw [hsum, barred, List.drop_succ_cons, List.drop_length_add_append, List.drop_succ_cons,
            ih (Nat.le_of_succ_le_succ hj)]

/-- A cell stands behind its bar. -/
lemma getElem?_barred (h : cells[j]? = some cell) :
    (barred cells)[((cells.take j).map fun cell => cell.length + 1).sum]? = some '|' ∧
      ∀ k < cell.length,
        (barred cells)[((cells.take j).map fun cell => cell.length + 1).sum + 1 + k]? =
          cell[k]? := by
  obtain ⟨hj, rfl⟩ := List.getElem?_eq_some_iff.mp h
  have hdrop := drop_barred hj.le
  rw [List.drop_eq_getElem_cons hj, barred] at hdrop
  constructor
  · rw [← List.head?_drop, hdrop, List.head?_cons]
  · intro k hk
    rw [Nat.add_assoc, ← List.getElem?_drop, hdrop, Nat.add_comm 1, List.getElem?_cons_succ,
      List.getElem?_append_left hk]

lemma toList_join_bars (cells : List String) :
    (String.join (cells.map fun cell => "|" ++ cell) ++ "|").toList =
      barred (cells.map String.toList) := by
  induction cells with
  | nil => rfl
  | cons cell cells ih =>
      rw [String.toList_append] at ih
      rw [List.map_cons, String.join_cons, String.toList_append, String.toList_append,
        String.toList_append, List.append_assoc, List.append_assoc, ih]
      rfl

/-! ### The lines of a grid -/

lemma toList_centred (w : ℕ) (glyph : Char) :
    (centred w (String.singleton glyph)).toList =
      List.replicate (w / 2) ' ' ++ glyph :: List.replicate (w - 1 - w / 2) ' ' := by
  simp [centred, spaces]

lemma length_centred {w : ℕ} (hw : w ≠ 0) (glyph : Char) :
    (centred w (String.singleton glyph)).toList.length = w := by
  rw [toList_centred, List.length_append, List.length_cons, List.length_replicate,
    List.length_replicate]
  omega

lemma not_mem_centred {glyph : Char} (hglyph : glyph ≠ '\n') (w : ℕ) :
    '\n' ∉ (centred w (String.singleton glyph)).toList := by
  rw [toList_centred, List.mem_append, List.mem_cons, List.mem_replicate, List.mem_replicate]
  rintro (⟨-, hspace⟩ | hfeed | ⟨-, hspace⟩)
  · exact absurd hspace (by decide)
  · exact hglyph hfeed.symm
  · exact absurd hspace (by decide)

lemma getElem?_centred {w : ℕ} (hk : k < w) (glyph : Char) :
    (centred w (String.singleton glyph)).toList[k]? =
      some (if k = w / 2 then glyph else ' ') := by
  rw [toList_centred, List.getElem?_append, List.length_replicate]
  rcases lt_trichotomy k (w / 2) with hleft | rfl | hright
  · rw [if_pos hleft, if_neg hleft.ne, List.getElem?_replicate_of_lt hleft]
  · simp
  · obtain ⟨d, hd⟩ := Nat.exists_eq_add_of_lt hright
    have hd' : k - w / 2 = d + 1 := by omega
    rw [if_neg hright.not_gt, if_neg hright.ne', hd', List.getElem?_cons_succ,
      List.getElem?_replicate_of_lt (by omega)]

variable {t t' : Table} {yes no : Char} {text : String} {lines lines' : List (List Char)} {i : ℕ}

/-- The cells in the line of a row. -/
def cellsAt (t : Table) (yes no : Char) (i : ℕ) : List (List Char) :=
  t.columns.map fun c => (centred c.header.length
    (String.singleton (if c.bits[i]?.getD false then yes else no))).toList

lemma toList_rowLine (t : Table) (yes no : Char) (i : ℕ) :
    (t.rowLine (.ofChars yes no) (t.valuesAt i)).toList = barred (t.cellsAt yes no i) := by
  have hzip : t.columns.zip (t.valuesAt i) =
      t.columns.map fun c => (c, c.bits[i]?.getD false) :=
    List.map_prod_left_eq_zip.symm
  have hglyph : ∀ b, (Glyphs.ofChars yes no).glyph b = String.singleton (if b then yes else no) :=
    fun b => by cases b <;> rfl
  have hline := toList_join_bars (t.columns.map fun c => centred c.header.length
    (String.singleton (if c.bits[i]?.getD false then yes else no)))
  rw [List.map_map, List.map_map] at hline
  rw [rowLine, hzip, List.map_map, cellsAt]
  simp only [Function.comp_def, hglyph] at hline ⊢
  exact hline

lemma map_length_cellsAt (h : ∀ c ∈ t.columns, c.header ≠ "") (yes no : Char) (i : ℕ) :
    (t.cellsAt yes no i).map (fun cell => cell.length + 1) =
      t.headers.map fun header => header.length + 1 := by
  rw [cellsAt, headers, List.map_map, List.map_map]
  refine List.map_congr_left fun c hc => ?_
  exact congrArg (· + 1) (length_centred (mt String.length_eq_zero_iff.mp (h c hc)) _)

/-- The lines of the grid, as cells between bars. -/
def cellLines (t : Table) (yes no : Char) : List (List Char) :=
  [t.rule.toList, barred (t.headers.map String.toList), t.rule.toList] ++
    (List.range t.rows).map (fun i => barred (t.cellsAt yes no i)) ++ [t.rule.toList]

/-- The place of the bar that opens a column, counted from the front of a line. -/
def opening (t : Table) (j : ℕ) : ℕ := ((t.headers.take j).map fun header => header.length + 1).sum

/-- The grid of a table with glyphs of one character. -/
structure IsGrid (t : Table) (yes no : Char) (text : String) (lines : List (List Char)) : Prop where
  /-- Behind the line feed that ends the last line there is nothing. -/
  ended : Text.lines text = lines ++ [[]]
  count : lines.length = t.rows + 4
  width : ∀ l ∈ lines, l.length = 1 + (t.headers.map fun header => header.length + 1).sum
  /-- The headers are what stands between the bars of the second line. -/
  headers : lines[1]?.map (List.splitOn '|') = some ([] :: (t.headers.map String.toList ++ [[]]))
  /-- In the line of a row there is a bar before each column, then the glyph under the middle of
  the header and spaces around it. -/
  cell : ∀ i < t.rows, ∀ j c, t.columns[j]? = some c →
    ∃ l b, lines[i + 3]? = some l ∧ c.bits[i]? = some b ∧ l[t.opening j]? = some '|' ∧
      ∀ k < c.header.length, l[t.opening j + 1 + k]? =
        some (if k = c.header.length / 2 then if b then yes else no else ' ')

lemma mem_cellLines {l : List Char} (h : l ∈ t.cellLines yes no) :
    l = t.rule.toList ∨ l = barred (t.headers.map String.toList) ∨
      ∃ i, l = barred (t.cellsAt yes no i) := by
  rw [cellLines, List.mem_append, List.mem_append, List.mem_map, List.mem_singleton] at h
  rcases h with (h | ⟨i, -, hrow⟩) | hrule
  · rcases List.mem_cons.mp h with hrule | h
    · exact .inl hrule
    · rcases List.mem_cons.mp h with hheaders | h
      · exact .inr (.inl hheaders)
      · exact .inl (List.mem_singleton.mp h)
  · exact .inr (.inr ⟨i, hrow.symm⟩)
  · exact .inl hrule

lemma length_barred_headers (t : Table) :
    (barred (t.headers.map String.toList)).length =
      1 + (t.headers.map fun header => header.length + 1).sum := by
  rw [length_barred, List.map_map]
  rfl

lemma length_of_mem_cellLines (hheader : ∀ c ∈ t.columns, c.header ≠ "") {l : List Char}
    (h : l ∈ t.cellLines yes no) :
    l.length = 1 + (t.headers.map fun header => header.length + 1).sum := by
  rcases mem_cellLines h with hrule | hheaders | ⟨i, hrow⟩
  · rw [hrule, ← length_barred_headers, ← toList_join_bars, String.length_toList,
      String.length_toList, String.length_append, rule, String.length_ofList,
      List.length_replicate, headerLine]
    rfl
  · rw [hheaders, length_barred_headers]
  · rw [hrow, length_barred, map_length_cellsAt hheader]

/-- No line is broken if the headers and the glyphs are not. -/
lemma not_mem_cellLines (hheader : ∀ c ∈ t.columns, '\n' ∉ c.header.toList) (hyes : yes ≠ '\n')
    (hno : no ≠ '\n') {l : List Char} (h : l ∈ t.cellLines yes no) : '\n' ∉ l := by
  rcases mem_cellLines h with hrule | hheaders | ⟨i, hrow⟩
  · rw [hrule, rule, String.toList_ofList, List.mem_replicate]
    exact fun hmem => absurd hmem.2 (by decide)
  · rw [hheaders]
    refine not_mem_barred (by decide) (List.forall_mem_map.mpr ?_)
    exact List.forall_mem_map.mpr hheader
  · rw [hrow]
    refine not_mem_barred (by decide) (List.forall_mem_map.mpr fun c _ => ?_)
    exact not_mem_centred (by split <;> assumption) c.header.length

lemma map_toList_gridLines (hsize : ∀ c ∈ t.columns, t.rows ≤ c.bits.size) {ls : List String}
    (hls : t.gridLines (.ofChars yes no) = .ok ls) : ls.map String.toList = t.cellLines yes no := by
  rw [gridLines_eq hsize, Except.ok.injEq] at hls
  rw [← hls, List.map_append, List.map_append, List.map_map, cellLines, ← toList_join_bars]
  simp only [Function.comp_def, toList_rowLine]
  rfl

lemma getElem?_cellLines (hi : i < t.rows) :
    (t.cellLines yes no)[i + 3]? = some (barred (t.cellsAt yes no i)) := by
  rw [cellLines, List.append_assoc, List.getElem?_append_right (Nat.le_add_left 3 i)]
  show (_ ++ _)[i]? = _
  rw [List.getElem?_append_left (by simpa using hi), List.getElem?_map, List.getElem?_range hi,
    Option.map_some]

/-- What stands in the line of a row from the bar of a column on. -/
lemma getElem?_cellsAt (hempty : ∀ c ∈ t.columns, c.header ≠ "") {c : Column} {b : Bool}
    (hc : t.columns[j]? = some c) (hb : c.bits[i]? = some b) :
    (barred (t.cellsAt yes no i))[t.opening j]? = some '|' ∧
      ∀ k < c.header.length, (barred (t.cellsAt yes no i))[t.opening j + 1 + k]? =
        some (if k = c.header.length / 2 then if b then yes else no else ' ') := by
  have hcell : (t.cellsAt yes no i)[j]? = some (centred c.header.length
      (String.singleton (if b then yes else no))).toList := by
    rw [cellsAt, List.getElem?_map, hc, Option.map_some, hb, Option.getD_some]
  have hopening : (((t.cellsAt yes no i).take j).map fun cell => cell.length + 1).sum =
      t.opening j := by
    rw [opening, List.map_take, List.map_take, map_length_cellsAt hempty]
  have hheader : c.header.length ≠ 0 :=
    mt String.length_eq_zero_iff.mp (hempty c (List.mem_of_getElem? hc))
  obtain ⟨hbar, hcharacters⟩ := getElem?_barred hcell
  rw [hopening] at hbar hcharacters
  refine ⟨hbar, fun k hk => ?_⟩
  rw [hcharacters k ((length_centred hheader _).symm ▸ hk), getElem?_centred hk]

/-- A table whose headers have no bars and no line feeds has a grid. -/
lemma exists_isGrid (hsize : ∀ c ∈ t.columns, t.rows ≤ c.bits.size)
    (hempty : ∀ c ∈ t.columns, c.header ≠ "") (hbar : ∀ c ∈ t.columns, '|' ∉ c.header.toList)
    (hfeed : ∀ c ∈ t.columns, '\n' ∉ c.header.toList) (hyes : yes ≠ '\n') (hno : no ≠ '\n') :
    ∃ text lines, t.grid (.ofChars yes no) = .ok text ∧ t.IsGrid yes no text lines := by
  obtain ⟨ls, hls⟩ : ∃ ls, t.gridLines (.ofChars yes no) = .ok ls := ⟨_, gridLines_eq hsize _⟩
  have hlines := map_toList_gridLines hsize hls
  refine ⟨_, t.cellLines yes no, by rw [grid, hls, Except.map], ?_, ?_,
    fun l hl => length_of_mem_cellLines hempty hl, ?_, fun i hi j c hc => ?_⟩
  · rw [Text.lines_join, hlines]
    intro l hl
    have hmem : l.toList ∈ t.cellLines yes no := hlines ▸ List.mem_map_of_mem hl
    exact not_mem_cellLines hfeed hyes hno hmem
  · simp [cellLines]
  · have hcells : ∀ cell ∈ t.headers.map String.toList, '|' ∉ cell :=
      List.forall_mem_map.mpr (List.forall_mem_map.mpr hbar)
    exact congrArg some (splitOn_barred hcells)
  · have hget := Array.getElem?_eq_getElem (hi.trans_le (hsize c (List.mem_of_getElem? hc)))
    exact ⟨_, _, getElem?_cellLines hi, hget, getElem?_cellsAt hempty hc hget⟩

/-- With two glyphs the truth values of a row are told apart. -/
lemma IsGrid.bit_eq (h : t.IsGrid yes no text lines) (h' : t'.IsGrid yes no text lines)
    (hne : yes ≠ no) (hheaders : t'.headers = t.headers) (hi : i < t.rows) (hi' : i < t'.rows)
    {c c' : Column} (hc : t.columns[j]? = some c) (hc' : t'.columns[j]? = some c')
    (hempty : c.header ≠ "") (hheader : c'.header = c.header) : c'.bits[i]? = c.bits[i]? := by
  obtain ⟨l, b, hl, hb, -, hcharacters⟩ := h.cell i hi j c hc
  obtain ⟨l', b', hl', hb', -, hcharacters'⟩ := h'.cell i hi' j c' hc'
  obtain rfl : l' = l := Option.some.inj (hl'.symm.trans hl)
  have hpos : 0 < c.header.length := Nat.pos_of_ne_zero (mt String.length_eq_zero_iff.mp hempty)
  have hmiddle := hcharacters _ (Nat.div_lt_self hpos one_lt_two)
  have hopening : t'.opening j = t.opening j := by rw [opening, opening, hheaders]
  rw [hopening, hheader] at hcharacters'
  rw [hcharacters' _ (Nat.div_lt_self hpos one_lt_two), if_pos rfl, if_pos rfl,
    Option.some.injEq] at hmiddle
  rw [hb, hb', Option.some.injEq]
  cases b <;> cases b' <;> simp [hne, hne.symm] at hmiddle ⊢

/-- With two glyphs the grid has the headers and the vectors of a table. -/
lemma IsGrid.columns_eq (h : t.IsGrid yes no text lines) (h' : t'.IsGrid yes no text lines')
    (hne : yes ≠ no) (hempty : ∀ c ∈ t.columns, c.header ≠ "")
    (hsize : ∀ c ∈ t.columns, c.bits.size = t.rows)
    (hsize' : ∀ c ∈ t'.columns, c.bits.size = t'.rows) :
    t'.headers = t.headers ∧ t'.rows = t.rows ∧
      t'.columns.map Column.bits = t.columns.map Column.bits := by
  obtain rfl : lines' = lines := List.append_cancel_right (h'.ended.symm.trans h.ended)
  have hrows : t'.rows = t.rows := by
    have hcount := h'.count.symm.trans h.count
    omega
  have hheaders : t'.headers = t.headers := by
    have heq := Option.some.inj (h'.headers.symm.trans h.headers)
    rw [List.cons.injEq, List.append_cancel_right_eq] at heq
    exact List.map_injective_iff.mpr (fun _ _ => String.toList_inj.mp) heq.2
  refine ⟨hheaders, hrows, List.ext_getElem? fun j => ?_⟩
  have hheader : t'.columns[j]?.map Column.header = t.columns[j]?.map Column.header := by
    rw [← List.getElem?_map, ← List.getElem?_map]
    exact congrArg (·[j]?) hheaders
  rw [List.getElem?_map, List.getElem?_map]
  cases hc : t.columns[j]? with
  | none =>
      rw [hc, Option.map_none, Option.map_eq_none_iff] at hheader
      rw [hheader, Option.map_none]
  | some c =>
      rw [hc, Option.map_some, Option.map_eq_some_iff] at hheader
      obtain ⟨c', hc', hheader⟩ := hheader
      have hmem := List.mem_of_getElem? hc
      have hsizes : c'.bits.size = c.bits.size := by
        rw [hsize c hmem, hsize' c' (List.mem_of_getElem? hc'), hrows]
      have hbits : c'.bits = c.bits := by
        refine Array.ext hsizes fun i hi' hi => ?_
        rw [hsize' c' (List.mem_of_getElem? hc')] at hi'
        have hbit := h.bit_eq h' hne hheaders (hrows ▸ hi') hi' hc hc' (hempty c hmem) hheader
        rwa [Array.getElem?_eq_getElem (hsizes ▸ hi), Array.getElem?_eq_getElem hi,
          Option.some.injEq] at hbit
      rw [hc', Option.map_some, Option.map_some, hbits]

/-- **What is read off a grid.**  The grid of the table of a text with glyphs of one character,
neither of them a line feed, has as many lines as the table has rows and four more, all equally
long and each ended by a line feed.  Between the bars of the second line there are the headers,
and in the line of a row the glyphs of its truth values, each under the middle of its header with
spaces around it.  So where the glyphs differ, tables of texts with the same grid have the same
headers and vectors. -/
theorem ofText_grid {numeric ordered : Bool} {request : String}
    (h : Table.ofText numeric ordered request = .ok t) (hyes : yes ≠ '\n') (hno : no ≠ '\n') :
    ∃ text lines, t.grid (.ofChars yes no) = .ok text ∧ t.IsGrid yes no text lines ∧
      (yes ≠ no → ∀ numeric ordered request t', Table.ofText numeric ordered request = .ok t' →
        t'.grid (.ofChars yes no) = .ok text → t'.headers = t.headers ∧ t'.rows = t.rows ∧
          t'.columns.map Column.bits = t.columns.map Column.bits) := by
  have hgrid : ∀ numeric ordered request t, Table.ofText numeric ordered request = .ok t →
      ∃ text lines, t.grid (.ofChars yes no) = .ok text ∧ t.IsGrid yes no text lines := by
    intro numeric ordered request t h
    exact exists_isGrid (fun c hc => (size_of_ok h c hc).ge)
      (fun c hc => (written_header h hc).2)
      (fun c hc => (written_header h hc).1.not_mem (by decide +kernel))
      (fun c hc => (written_header h hc).1.not_mem (by decide +kernel)) hyes hno
  obtain ⟨text, lines, htext, hlines⟩ := hgrid numeric ordered request t h
  refine ⟨text, lines, htext, hlines, fun hne numeric' ordered' request' t' h' htext' => ?_⟩
  obtain ⟨text', lines', htext'', hlines'⟩ := hgrid numeric' ordered' request' t' h'
  obtain rfl : text' = text := Except.ok.inj (htext''.symm.trans htext')
  exact hlines.columns_eq hlines' hne (fun c hc => (written_header h hc).2) (size_of_ok h)
    (size_of_ok h')

/-- Headers of one and of five characters, with a bar for true and a space for false. -/
theorem ofText_grid_bar :
    ∃ t, Table.ofText true true "p | q" = .ok t ∧ '|' ≠ '\n' ∧ ' ' ≠ '\n' ∧
      ∃ text lines, t.grid (.ofChars '|' ' ') = .ok text ∧ t.IsGrid '|' ' ' text lines ∧
        ('|' ≠ ' ' → ∀ numeric ordered request t', Table.ofText numeric ordered request = .ok t' →
          t'.grid (.ofChars '|' ' ') = .ok text → t'.headers = t.headers ∧ t'.rows = t.rows ∧
            t'.columns.map Column.bits = t.columns.map Column.bits) :=
  have h : Table.ofText true true "p | q" =
      .ok ⟨[⟨"p", "p", #[false, false, true, true], .simple⟩,
        ⟨"q", "q", #[false, true, false, true], .simple⟩,
        ⟨"$p0", "p ∨ q", #[false, true, true, true], .anonymous⟩], 4, true, true⟩ := by
    decide +kernel
  ⟨_, h, by decide, by decide, ofText_grid h (by decide) (by decide)⟩

end Table

end Propositional
