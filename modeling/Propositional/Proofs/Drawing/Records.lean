/-
Records read again.

* `Record.Reader`: a reader of comma-separated records, one character at a time, which
  refuses what no record is written like.
* `Record.Reader.run_field`: a written field is read up to the character behind it, and
  `Record.Reader.run_line` a written record with its end.
* `Record.read_lines`: records are read back from their lines.
* `Table.records_read`: so are the headers and the rows of a table, and with two glyphs its
  truth values.
-/
import Propositional.Drawing.Records
import Propositional.Proofs.Drawing.Grid

namespace Propositional

namespace Record

/-! ### A reader -/

/-- Where a reader of records stands. -/
inductive Place where
  /-- before a record -/
  | record
  /-- behind a comma -/
  | field
  /-- in a field without quotation marks -/
  | bare
  /-- between quotation marks -/
  | quoted
  /-- behind a quotation mark, which ends the field unless another one follows -/
  | mark
  /-- behind a carriage return -/
  | ended
  deriving DecidableEq, Repr

/-- What a reader has read: some records, fields of the next one and characters of the field
behind them. -/
structure Reader where
  records : List (List (List Char)) := []
  fields : List (List Char) := []
  text : List Char := []
  place : Place := .record
  deriving DecidableEq, Repr

namespace Reader

/-- Adds a character to the field. -/
def push (r : Reader) (c : Char) (place : Place) : Reader := { r with text := r.text ++ [c], place }

/-- Ends the field. -/
def close (r : Reader) (place : Place) : Reader :=
  { r with fields := r.fields ++ [r.text], text := [], place }

/-- Reads the character behind a field. -/
def delimit (r : Reader) (c : Char) : Option Reader :=
  if c = ',' then some (r.close .field) else if c = '\r' then some (r.close .ended) else none

/-- Reads a character of a field without quotation marks, or the one behind it. -/
def extend (r : Reader) (c : Char) : Option Reader :=
  if c = ',' ∨ c = '\r' then r.delimit c
  else if c = '\x22' ∨ c = '\n' then none
  else some (r.push c .bare)

/-- Reads the first character of a field, or the one behind an empty field. -/
def enter (r : Reader) (c : Char) : Option Reader :=
  if c = '\x22' then some { r with place := .quoted } else r.extend c

/-- Reads a character. -/
def step (r : Reader) (c : Char) : Option Reader :=
  match r.place with
  | .record => if c = '\r' then some { r with place := .ended } else r.enter c
  | .field => r.enter c
  | .bare => r.extend c
  | .quoted => some (if c = '\x22' then { r with place := .mark } else r.push c .quoted)
  | .mark => if c = '\x22' then some (r.push c .quoted) else r.delimit c
  | .ended => if c = '\n' then some { records := r.records ++ [r.fields] } else none

/-- Reads characters. -/
def run (r : Reader) (cs : List Char) : Option Reader := cs.foldlM step r

end Reader

/-- The records of a text, if it ends with the end of a record. -/
def read (cs : List Char) : Option (List (List (List Char))) :=
  (Reader.run {} cs).bind fun r => if r.place = .record then some r.records else none

lemma isSpecial_eq_false_iff {c : Char} :
    isSpecial c = false ↔ c ≠ ',' ∧ c ≠ '\x22' ∧ c ≠ '\r' ∧ c ≠ '\n' := by
  simp [isSpecial, and_assoc]

/-! ### Reading what is written -/

namespace Reader

variable {r r' : Reader} {c : Char} {cs ds : List Char} {records : List (List (List Char))}
  {fields : List (List Char)} {text : List Char} {place : Place}

lemma run_cons (h : r.step c = some r') : r.run (c :: cs) = r'.run cs := by
  rw [run, List.foldlM_cons, h]
  rfl

lemma run_append (h : r.run cs = some r') : r.run (cs ++ ds) = r'.run ds := by
  rw [run, List.foldlM_append, ← run, h]
  rfl

/-- A character that needs no marks is taken into the field. -/
lemma extend_eq (h : isSpecial c = false) (r : Reader) : r.extend c = some (r.push c .bare) := by
  obtain ⟨hcomma, hmark, hreturn, hfeed⟩ := isSpecial_eq_false_iff.mp h
  rw [extend, if_neg (not_or_intro hcomma hreturn), if_neg (not_or_intro hmark hfeed)]

lemma run_bare (h : cs.any isSpecial = false) :
    run ⟨records, fields, text, .bare⟩ cs = some ⟨records, fields, text ++ cs, .bare⟩ := by
  induction cs generalizing text with
  | nil =>
      rw [List.append_nil]
      rfl
  | cons c cs ih =>
      rw [List.any_cons, Bool.or_eq_false_iff] at h
      have hstep : step ⟨records, fields, text, .bare⟩ c =
          some ⟨records, fields, text ++ [c], .bare⟩ := extend_eq h.1 _
      rw [run_cons hstep, ih h.2, List.append_assoc, List.singleton_append]

/-- Between marks a character is taken into the field, and two marks are one. -/
lemma run_quoted (cs : List Char) :
    run ⟨records, fields, text, .quoted⟩
        (cs.flatMap fun c => if c = '\x22' then ['\x22', '\x22'] else [c]) =
      some ⟨records, fields, text ++ cs, .quoted⟩ := by
  induction cs generalizing text with
  | nil =>
      rw [List.append_nil]
      rfl
  | cons c cs ih =>
      have hchar : run ⟨records, fields, text, .quoted⟩
          (if c = '\x22' then ['\x22', '\x22'] else [c]) =
            some ⟨records, fields, text ++ [c], .quoted⟩ := by
        by_cases hc : c = '\x22'
        · rw [if_pos hc, hc]
          rfl
        · rw [if_neg hc]
          exact congrArg some (if_neg hc)
      rw [List.flatMap_cons, run_append hchar, ih, List.append_assoc, List.singleton_append]

/-- A field between marks is read with the character behind it. -/
lemma run_enclose (cs : List Char) (hplace : place = .record ∨ place = .field)
    (hc : c = ',' ∨ c = '\r') :
    run ⟨records, fields, [], place⟩ (enclose cs ++ [c]) =
      delimit ⟨records, fields, cs, .bare⟩ c := by
  have hfirst : step ⟨records, fields, [], place⟩ '\x22' = some ⟨records, fields, [], .quoted⟩ := by
    rcases hplace with rfl | rfl <;> rfl
  have hlast : run ⟨records, fields, cs, .quoted⟩ ['\x22', c] =
      delimit ⟨records, fields, cs, .bare⟩ c := by
    rcases hc with rfl | rfl <;> rfl
  rw [enclose, List.append_assoc, List.cons_append, run_cons hfirst,
    run_append (run_quoted cs), List.nil_append]
  exact hlast

/-- A written field is read with the character behind it, unless it is alone and empty. -/
lemma run_field (hplace : place = .record ∧ (cs ≠ [] ∨ c = ',') ∨ place = .field)
    (hc : c = ',' ∨ c = '\r') :
    run ⟨records, fields, [], place⟩ (field cs ++ [c]) =
      delimit ⟨records, fields, cs, .bare⟩ c := by
  rw [field]
  cases hspecial : cs.any isSpecial with
  | true => exact run_enclose cs (hplace.imp_left And.left) hc
  | false =>
      cases cs with
      | nil =>
          rcases hplace with ⟨rfl, hne | rfl⟩ | rfl
          · exact absurd rfl hne
          · rfl
          · rcases hc with rfl | rfl <;> rfl
      | cons d cs =>
          rw [List.any_cons, Bool.or_eq_false_iff] at hspecial
          obtain ⟨-, hmark, hreturn, -⟩ := isSpecial_eq_false_iff.mp hspecial.1
          have henter : enter ⟨records, fields, [], place⟩ d =
              some ⟨records, fields, [d], .bare⟩ := by
            rw [enter, if_neg hmark, extend_eq hspecial.1]
            rfl
          have hfirst : step ⟨records, fields, [], place⟩ d =
              some ⟨records, fields, [d], .bare⟩ := by
            rcases hplace with ⟨rfl, -⟩ | rfl
            · exact (if_neg hreturn).trans henter
            · exact henter
          have hlast : run ⟨records, fields, d :: cs, .bare⟩ [c] =
              delimit ⟨records, fields, d :: cs, .bare⟩ c := by
            rcases hc with rfl | rfl <;> rfl
          rw [if_neg Bool.false_ne_true, List.cons_append, run_cons hfirst,
            run_append (run_bare hspecial.2)]
          exact hlast

/-! ### Records -/

/-- Fields with commas between them are read up to the end of the record. -/
lemma run_fields {f : List Char} {fs : List (List Char)}
    (hplace : place = .record ∧ (f ≠ [] ∨ fs ≠ []) ∨ place = .field) :
    run ⟨records, fields, [], place⟩ ([','].intercalate ((f :: fs).map field) ++ ['\r']) =
      some ⟨records, fields ++ f :: fs, [], .ended⟩ := by
  induction fs generalizing f fields place with
  | nil =>
      have hplace' : place = .record ∧ (f ≠ [] ∨ '\r' = ',') ∨ place = .field :=
        hplace.imp_left (And.imp_right fun h => .inl (h.resolve_right fun hne => hne rfl))
      rw [List.map_cons, List.map_nil, List.intercalate_singleton, run_field hplace' (.inr rfl)]
      rfl
  | cons g gs ih =>
      -- in front of a comma the first field may be empty, and so may any field behind it
      have hplace' : place = .record ∧ (f ≠ [] ∨ ',' = ',') ∨ place = .field :=
        hplace.imp_left (And.imp_right fun _ => .inr rfl)
      have hfield : run ⟨records, fields, [], place⟩ (field f ++ [',']) =
          some ⟨records, fields ++ [f], [], .field⟩ := run_field hplace' (.inl rfl)
      rw [List.map_cons, List.map_cons, List.intercalate_cons_cons, ← List.map_cons,
        List.append_assoc, run_append hfield, ih (.inr rfl), List.append_assoc,
        List.singleton_append]

/-- Only a field that is empty and alone is written otherwise than with commas. -/
lemma body_cons {f : List Char} {fs : List (List Char)} (h : f ≠ [] ∨ fs ≠ []) :
    body (f :: fs) = [','].intercalate ((f :: fs).map field) := by
  cases f with
  | nil =>
      cases fs with
      | nil => simp at h
      | cons => rfl
  | cons => rfl

lemma run_line (fields : List (List Char)) :
    run { records } (line fields) = some { records := records ++ [fields] } := by
  have hbody : run { records } (body fields ++ ['\r']) = some ⟨records, fields, [], .ended⟩ := by
    cases fields with
    | nil => rfl
    | cons f fs =>
        by_cases hempty : f = [] ∧ fs = []
        · obtain ⟨rfl, rfl⟩ := hempty
          rfl
        · have hne : f ≠ [] ∨ fs ≠ [] := not_and_or.mp hempty
          rw [body_cons hne]
          exact run_fields (.inl ⟨rfl, hne⟩)
  have hline : line fields = body fields ++ ['\r'] ++ ['\n'] := by
    rw [line, List.append_assoc]
    rfl
  rw [hline, run_append hbody]
  rfl

lemma run_lines (rs : List (List (List Char))) :
    run { records } (lines rs) = some { records := records ++ rs } := by
  induction rs generalizing records with
  | nil =>
      rw [List.append_nil]
      rfl
  | cons fields rs ih =>
      have hrest := @ih (records ++ [fields])
      rw [List.append_assoc, List.singleton_append] at hrest
      rw [lines, List.flatMap_cons, run_append (run_line fields)]
      exact hrest

end Reader

/-- Records are read back from their lines, whatever characters their fields have. -/
lemma read_lines (records : List (List (List Char))) : read (lines records) = some records := by
  rw [read, Reader.run_lines, List.nil_append]
  rfl

/-- The records of a text as texts. -/
def readText (text : String) : Option (List (List String)) :=
  (read text.toList).map fun records => records.map fun record => record.map String.ofList

lemma readText_lines (records : List (List String)) :
    readText (String.ofList (lines (records.map fun record => record.map String.toList))) =
      some records := by
  have hback : ∀ record : List String, (record.map String.toList).map String.ofList = record := by
    intro record
    rw [List.map_map]
    exact (List.map_congr_left fun s _ => String.ofList_toList).trans (List.map_id record)
  rw [readText, String.toList_ofList, read_lines, Option.map_some, List.map_map]
  exact congrArg some ((List.map_congr_left fun record _ => hback record).trans (List.map_id _))

/-- A line without characters is a record without fields, marks alone are an empty field. -/
example : readText "a,\x22b\x22\x22\r\n\x22\r\n\r\n\x22\x22\r\n" =
    some [["a", "b\x22\r\n"], [], [""]] := by decide +kernel

end Record

/-! ### Tables -/

/-- The truth value that a glyph stands for. -/
def Glyphs.value? (g : Glyphs) (glyph : String) : Option Bool :=
  if glyph = g.whenTrue then some true else if glyph = g.whenFalse then some false else none

lemma Glyphs.value?_glyph {g : Glyphs} (h : g.whenTrue ≠ g.whenFalse) (b : Bool) :
    g.value? (g.glyph b) = some b := by
  cases b with
  | false => exact (if_neg h.symm).trans (if_pos rfl)
  | true => exact if_pos rfl

namespace Table

variable {t : Table}

/-- A row within all vectors has the truth values that are there. -/
lemma map_some_valuesAt {i : ℕ} (h : ∀ c ∈ t.columns, i < c.bits.size) :
    (t.valuesAt i).map some = t.columns.map fun c => c.bits[i]? := by
  rw [valuesAt, List.map_map]
  refine List.map_congr_left fun c hc => ?_
  rw [Function.comp_apply, Array.getElem?_eq_getElem (h c hc), Option.getD_some]

/-- **A table is read back from its records.**  Where no vector is shorter than the table,
whatever the headers and the glyphs, a reader of records finds the headers and then the glyphs of
each row.  If the glyphs differ, these give back the truth values. -/
theorem records_read (h : ∀ c ∈ t.columns, t.rows ≤ c.bits.size) (g : Glyphs) :
    ∃ text rows, t.records g = .ok text ∧ Record.readText text = some (t.headers :: rows) ∧
      List.Forall₂ (fun (i : ℕ) record => ∃ bits, t.row i = .ok bits ∧
        bits.map some = t.columns.map (fun c => c.bits[i]?) ∧ record = bits.map g.glyph)
        (List.range t.rows) rows ∧
      (g.whenTrue ≠ g.whenFalse → rows.map (List.map g.value?) =
        (List.range t.rows).map fun i => t.columns.map fun c => c.bits[i]?) := by
  have hsize : ∀ i ∈ List.range t.rows, ∀ c ∈ t.columns, i < c.bits.size :=
    fun i hi c hc => (List.mem_range.mp hi).trans_le (h c hc)
  refine ⟨_, (List.range t.rows).map fun i => (t.valuesAt i).map g.glyph,
    by rw [records, rowList_eq h, Except.map], ?_, ?_, fun hne => ?_⟩
  · rw [Record.readText_lines, List.map_map]
    rfl
  · rw [List.forall₂_map_right_iff, List.forall₂_same]
    exact fun i hi => ⟨t.valuesAt i, row_eq (hsize i hi), map_some_valuesAt (hsize i hi), rfl⟩
  · rw [List.map_map]
    refine List.map_congr_left fun i hi => ?_
    rw [Function.comp_apply, List.map_map, ← map_some_valuesAt (hsize i hi)]
    exact List.map_congr_left fun b _ => Glyphs.value?_glyph hne b

/-- One column without a header, where false is an empty text and true a quotation mark. -/
theorem records_read_empty :
    (∀ c ∈ [(⟨"p", "", #[false, true, true], .simple⟩ : Column)], 2 ≤ c.bits.size) ∧
      ∃ t : Table, t = ⟨[⟨"p", "", #[false, true, true], .simple⟩], 2, true, true⟩ ∧
        ∃ text rows, t.records ⟨"\x22", ""⟩ = .ok text ∧
          Record.readText text = some (t.headers :: rows) ∧
          List.Forall₂ (fun (i : ℕ) record => ∃ bits, t.row i = .ok bits ∧
            bits.map some = t.columns.map (fun c => c.bits[i]?) ∧
              record = bits.map (Glyphs.glyph ⟨"\x22", ""⟩))
            (List.range t.rows) rows ∧
          ("\x22" ≠ "" → rows.map (List.map (Glyphs.value? ⟨"\x22", ""⟩)) =
            (List.range t.rows).map fun i => t.columns.map fun c => c.bits[i]?) :=
  have h : ∀ c ∈ [(⟨"p", "", #[false, true, true], .simple⟩ : Column)], 2 ≤ c.bits.size := by
    decide
  ⟨h, _, rfl, records_read h ⟨"\x22", ""⟩⟩

end Table

end Propositional
