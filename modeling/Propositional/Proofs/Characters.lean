/-
The characters of the headers.

* `Text.isWritten`: the characters that formulas are written with.
* `Derivation.written_text`, `Proposition.Readable.written`: the text of a proposition that is
  derived from pieces of a text has no others.
* `Table.written_header`: nor has a header of the table of a text, which is not empty.
-/
import Propositional.Proofs.Coverage
import Propositional.Proofs.Headings

namespace Propositional

/-! ### Written characters -/

namespace Text

/-- The signs of the written connectives, constants and brackets, and the space. -/
def writtenSigns : List Char :=
  [' ', '=', '¬', '∧', '∨', '⊻', '<', '-', '>', '⊤', '⊥', '(', ')', '[', ']', '\x7b', '\x7d']

/-- A character of a formula as it is written, whatever the spellings it was read from. -/
def isWritten (c : Char) : Bool := continuesName c || writtenSigns.contains c

/-- Whether a text is written with such characters. -/
def Written (s : String) : Prop := ∀ c ∈ s.toList, isWritten c = true

-- by way of `List.all`, which looks at the characters of the text and not at all there are
instance (s : String) : Decidable (Written s) :=
  decidable_of_iff (s.toList.all isWritten = true) List.all_eq_true

variable {c : Char} {s s' : String}

lemma Written.append (hs : Written s) (hs' : Written s') : Written (s ++ s') := by
  intro c hc
  rw [String.toList_append, List.mem_append] at hc
  exact hc.elim (hs c) (hs' c)

/-- No other character stands in such a text. -/
lemma Written.not_mem (hs : Written s) (hc : isWritten c = false) : c ∉ s.toList := by
  intro hmem
  rw [hs c hmem] at hc
  cases hc

/-- The only white space among them is the space. -/
lemma eq_space_of_isWritten (hc : isWritten c = true) (hblank : isBlank c = true) : c = ' ' := by
  rw [isWritten, Bool.or_eq_true, List.contains_iff_mem] at hc
  rcases hc with hname | hsign
  · rw [isBlank_of_continuesName hname] at hblank
    cases hblank
  · have hsigns : writtenSigns.filter isBlank = [' '] := by decide +kernel
    have hmem : c ∈ writtenSigns.filter isBlank := List.mem_filter.mpr ⟨hsign, hblank⟩
    rwa [hsigns, List.mem_singleton] at hmem

end Text

open Text

/-! ### Formulas -/

lemma Connective.written_text (c : Connective) : Written c.text := by
  cases c <;> decide +kernel

lemma Bracket.written (b : Bracket) : Written b.opener ∧ Written b.closer := by
  cases b <;> decide +kernel

namespace Token

lemma IsPiece.written_ident {n : String} (h : IsPiece .ident n) : Written n := by
  obtain ⟨c, cs, hn, hstart, hall, -⟩ | ⟨hnumber, -⟩ | hmem | ⟨hunknown, -⟩ := h.cases
  · intro d hd
    rw [hn] at hd
    rcases List.mem_cons.mp hd with rfl | hd
    · rw [isWritten, continuesName, hstart, Bool.true_or, Bool.true_or]
    · rw [isWritten, hall d hd, Bool.true_or]
  · cases hnumber
  · have hkinds : ∀ op ∈ operators, op.2 ≠ .ident := by decide
    exact absurd rfl (hkinds _ hmem)
  · cases hunknown

lemma IsAtom.written {numeric : Bool} {t : Token} (h : t.IsAtom numeric)
    (hpiece : IsPiece t.kind t.lexeme) : Written t.lexeme := by
  have hsigns : ∀ op ∈ operators, op.2 = .top ∨ op.2 = .bottom → op.1.all isWritten = true := by
    decide +kernel
  rcases h with hident | htop | hbottom | ⟨-, -, hdigit | hdigit⟩
  · rw [hident] at hpiece
    exact hpiece.written_ident
  · exact List.all_eq_true.mp (hsigns _ (hpiece.mem_operators (.inl htop)) (.inl htop))
  · exact List.all_eq_true.mp (hsigns _ (hpiece.mem_operators (.inr hbottom)) (.inr hbottom))
  · rw [hdigit]
    decide +kernel
  · rw [hdigit]
    decide +kernel

end Token

namespace Derivation

variable {numeric : Bool} {n : ℕ}

/-- A formula is written with these characters if it is derived from pieces of a text. -/
lemma written_text (d : Derivation numeric n)
    (h : ∀ t ∈ d.tokens, Token.IsPiece t.kind t.lexeme) : Written d.formula.text := by
  induction d with
  | atom t ht => exact ht.written (h t (List.mem_singleton_self t))
  | group b o c ho hc d ih =>
      have hinner := ih fun t ht => h t (by simp [tokens, ht])
      exact (b.written.1.append hinner).append b.written.2
  | neg t ht d ih =>
      have hinner := ih fun u hu => h u (List.mem_cons_of_mem _ hu)
      have hsign : Written "¬" := by decide +kernel
      exact hsign.append hinner
  | binary c t hc ht l r ihl ihr =>
      have hl := ihl fun u hu => h u (List.mem_append_left _ hu)
      have hr := ihr fun u hu => h u (List.mem_append_right _ (List.mem_cons_of_mem _ hu))
      exact (hl.append c.written_text).append hr
  | next d ih => exact ih h

end Derivation

lemma Proposition.Readable.written {p : Proposition} (h : p.Readable) : Written p.text := by
  obtain ⟨numeric, i, hsame, hpieces⟩ := h
  rw [← hsame.text_eq]
  rcases i with d | ⟨t, e, ht, he, d⟩
  · exact d.written_text hpieces
  · have hname : Token.IsPiece .ident t.lexeme := ht ▸ hpieces t List.mem_cons_self
    have hformula := d.written_text fun u hu =>
      hpieces u (List.mem_cons_of_mem _ (List.mem_cons_of_mem _ hu))
    have hsign : Written " = " := by decide +kernel
    exact (hname.written_ident.append hsign).append hformula

/-! ### Headers -/

/-- The headers of the table of a text are written with these characters, and none is empty. -/
lemma Table.written_header {numeric ordered : Bool} {text : String} {t : Table} {c : Column}
    (h : Table.ofText numeric ordered text = .ok t) (hc : c ∈ t.columns) :
    Written c.header ∧ c.header ≠ "" := by
  obtain ⟨ps, e, hps, -, he, rfl⟩ := exists_isOf h
  obtain ⟨p, hp⟩ := he.exists_titled hc
  refine ⟨hp.header_eq ▸ (hp.readable hps).written, ?_⟩
  obtain ⟨d, ds, hheader, -⟩ := hp.unreserved hps
  intro hempty
  rw [hempty] at hheader
  cases hheader

end Propositional
