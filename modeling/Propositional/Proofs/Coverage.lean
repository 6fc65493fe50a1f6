/-
The tokens of a text cover it.

* `Token.Tiles`: a list of tokens as the pieces of a text, with white space between
  them; `Token.tiles_scanFrom` says so of the tokens that are found.
* `Position.behind`: the place behind some characters, by their line feeds.
* `Source.toList_covers`: between the pieces there is white space only, and every
  token, the end of the text included, says where it stands.
-/
import Mathlib.Data.List.DropRight
import Propositional.Proofs.Lexicon

namespace Propositional

namespace Token

open Text

/-! ### Texts laid out as tokens -/

/-- The characters that begin at a place, laid out as tokens with white space between
them. -/
inductive Tiles : Position → List Char → List Token → Prop
  | done (p : Position) : Tiles p [] []
  | blank {p : Position} {c : Char} {cs : List Char} {ts : List Token}
      (hc : isBlank c = true) (rest : Tiles (p.next c) cs ts) : Tiles p (c :: cs) ts
  | piece {p : Position} {kind : Kind} {n : String} {cs : List Char} {ts : List Token}
      (h : IsPiece kind n) (rest : Tiles (p.advance n.toList) cs ts) :
      Tiles p (n.toList ++ cs) (⟨kind, n, p⟩ :: ts)

lemma tiles_scanFrom (p : Position) (cs : List Char) : Tiles p cs (scanFrom p 0 cs) := by
  induction hlength : cs.length using Nat.strong_induction_on generalizing p cs with
  | _ m ih =>
    cases cs with
    | nil => exact .done p
    | cons c cs =>
        rw [List.length_cons] at hlength
        cases hc : isBlank c with
        | true =>
            rw [scanFrom_blank hc]
            exact .blank hc (ih cs.length (by omega) _ _ rfl)
        | false =>
            obtain ⟨kind, k, hm⟩ := exists_munch hc cs
            obtain ⟨piece, rest, rfl, rfl, hpiece⟩ := exists_piece hm
            have hlist : (String.ofList (c :: piece)).toList = c :: piece := String.toList_ofList
            have htiles := ih rest.length (by rw [List.length_append] at hlength; omega)
              (p.advance (c :: piece)) rest rfl
            rw [← hlist] at htiles
            have htext := Tiles.piece ⟨c, piece, hlist, hpiece⟩ htiles
            rw [hlist, List.cons_append] at htext
            rwa [scanFrom_piece hm]

namespace Tiles

variable {p : Position} {c : Char} {cs : List Char} {t : Token} {ts : List Token}

lemma isPiece (h : Tiles p cs ts) (ht : t ∈ ts) : IsPiece t.kind t.lexeme := by
  induction h with
  | done p => exact absurd ht List.not_mem_nil
  | blank hc rest ih => exact ih ht
  | piece hpiece rest ih =>
      rcases List.mem_cons.mp ht with rfl | ht
      · exact hpiece
      · exact ih ht

lemma exists_split (h : Tiles p cs ts) (ht : t ∈ ts) :
    ∃ before after, cs = before ++ t.lexeme.toList ++ after ∧ t.start = p.advance before := by
  induction h with
  | done p => exact absurd ht List.not_mem_nil
  | @blank p c cs ts hc rest ih =>
      obtain ⟨before, after, hcs, hstart⟩ := ih ht
      exact ⟨c :: before, after, by rw [hcs]; rfl, hstart⟩
  | @piece p kind n cs ts hpiece rest ih =>
      rcases List.mem_cons.mp ht with rfl | ht
      · exact ⟨[], cs, rfl, rfl⟩
      · obtain ⟨before, after, hcs, hstart⟩ := ih ht
        refine ⟨n.toList ++ before, after, ?_, ?_⟩
        · rw [hcs, List.append_assoc, List.append_assoc, List.append_assoc]
        · rw [hstart, Position.advance_append]

lemma le_offset (h : Tiles p cs ts) (ht : t ∈ ts) : p.offset ≤ t.start.offset := by
  obtain ⟨before, -, -, hstart⟩ := h.exists_split ht
  rw [hstart, Position.offset_advance]
  exact Nat.le_add_right _ _

lemma pairwise (h : Tiles p cs ts) :
    ts.Pairwise fun t u => t.start.offset + t.length ≤ u.start.offset := by
  induction h with
  | done p => exact .nil
  | blank hc rest ih => exact ih
  | piece hpiece rest ih =>
      refine List.pairwise_cons.mpr ⟨fun u hu => ?_, ih⟩
      have hle := rest.le_offset hu
      rwa [Position.offset_advance, String.length_toList] at hle

/-- A character that belongs to no token is white space. -/
lemma isBlank_of_getElem? (h : Tiles p cs ts) {i : ℕ} (hi : cs[i]? = some c)
    (houtside : ∀ t ∈ ts, p.offset + i < t.start.offset ∨
      t.start.offset + t.length ≤ p.offset + i) :
    isBlank c = true := by
  induction h generalizing i with
  | done p => cases hi
  | blank hc rest ih =>
      cases i with
      | zero => rwa [← Option.some.inj hi]
      | succ i =>
          refine ih hi fun t ht => ?_
          have := houtside t ht
          rw [Position.offset_next]
          omega
  | @piece p kind n cs ts hpiece rest ih =>
      -- the character cannot belong to the piece, so it stands behind it
      have hle : n.toList.length ≤ i := by
        have := houtside _ List.mem_cons_self
        rw [length, ← String.length_toList] at this
        dsimp only at this
        omega
      rw [List.getElem?_append_right hle] at hi
      refine ih hi fun t ht => ?_
      have := houtside t (List.mem_cons_of_mem _ ht)
      rw [Position.offset_advance]
      omega

end Tiles

end Token

/-! ### Lines and columns -/

/-- The place behind some characters of a text: one line for each line feed, and one
column for each character behind the last of them. -/
def Position.behind (before : List Char) : Position where
  line := 1 + before.count '\n'
  column := 1 + (before.rtakeWhile (· != '\n')).length
  offset := before.length

lemma Position.advance_start (before : List Char) : start.advance before = behind before := by
  induction before using List.reverseRecOn with
  | nil => rfl
  | append_singleton before c ih =>
      rw [advance_append, ih, advance_cons, advance_nil, next, behind, behind]
      by_cases hc : c = '\n'
      · subst hc
        simp
        omega
      · simp [hc]
        omega

-- a carriage return starts no line
example : Position.behind ['a', '\r', '\n', '\t', 'b'] = ⟨2, 3, 5⟩ := by decide

namespace Source

/-- What a list of tokens says about a text when nothing is lost: the pieces are slices
of the text, in their order and apart from each other, and what is left is white space. -/
structure Covers (text : List Char) (tokens : List Token) (eof : Token) : Prop where
  /-- The last token is the end of the text. -/
  eof_kind : eof.kind = .eof
  eof_lexeme : eof.lexeme = ""
  eof_offset : eof.start.offset = text.length
  /-- No other token is. -/
  kind_ne : ∀ t ∈ tokens, t.kind ≠ .eof
  lexeme_ne : ∀ t ∈ tokens, t.lexeme ≠ ""
  /-- A lexeme is what stands at the place of its token. -/
  slice : ∀ t ∈ tokens, (text.drop t.start.offset).take t.length = t.lexeme.toList
  increasing : (tokens ++ [eof]).Pairwise fun t u => t.start.offset < u.start.offset
  apart : (tokens ++ [eof]).Pairwise fun t u => t.start.offset + t.length ≤ u.start.offset
  /-- White space is between the lexemes, and only there. -/
  outside : ∀ i c, text[i]? = some c →
    (∀ t ∈ tokens, i < t.start.offset ∨ t.start.offset + t.length ≤ i) →
    Text.isBlank c = true
  inside : ∀ t ∈ tokens, ∀ c ∈ t.lexeme.toList, Text.isBlank c = false
  /-- Every line and column is counted from the text in front. -/
  place : ∀ t ∈ tokens ++ [eof], t.start = Position.behind (text.take t.start.offset)

variable {text : String} {t : Token}

lemma tiles_ofText (text : String) : Token.Tiles .start text.toList (ofText text).tokens := by
  rw [tokens_ofText]
  exact Token.tiles_scanFrom .start text.toList

lemma exists_split (ht : t ∈ (ofText text).tokens) :
    ∃ before after, text.toList = before ++ t.lexeme.toList ++ after ∧
      t.start = Position.behind before := by
  obtain ⟨before, after, htext, hstart⟩ := (tiles_ofText text).exists_split ht
  exact ⟨before, after, htext, by rw [hstart, Position.advance_start]⟩

lemma start_eof (text : String) : (ofText text).eof.start = Position.behind text.toList := by
  rw [eof, stop_ofText, Position.advance_start]

/-- A lexeme is what stands at the place of its token. -/
lemma slice_eq (ht : t ∈ (ofText text).tokens) :
    (text.toList.drop t.start.offset).take t.length = t.lexeme.toList := by
  obtain ⟨before, after, htext, hstart⟩ := exists_split ht
  rw [hstart, htext, Position.behind, List.append_assoc, List.drop_left, Token.length,
    ← String.length_toList, List.take_left]

lemma end_le (ht : t ∈ (ofText text).tokens) : t.start.offset + t.length ≤ text.toList.length := by
  obtain ⟨before, after, htext, hstart⟩ := exists_split ht
  rw [htext, hstart, Token.length, ← String.length_toList, List.length_append, List.length_append]
  exact Nat.le_add_right _ _

/-- The place of a token is told by the text in front of it. -/
lemma start_eq (ht : t ∈ (ofText text).toList) :
    t.start = Position.behind (text.toList.take t.start.offset) := by
  rcases List.mem_append.mp ht with ht | ht
  · obtain ⟨before, after, htext, hstart⟩ := exists_split ht
    rw [hstart, htext, List.append_assoc]
    exact congrArg Position.behind List.take_left.symm
  · rw [List.mem_singleton.mp ht, start_eof]
    exact congrArg Position.behind List.take_length.symm

/-- **Nothing of a text is lost or moved by cutting it into tokens.**  The tokens of
every text, the end of the text behind them, cover it. -/
theorem toList_covers (text : String) :
    ∃ tokens eof, (ofText text).toList = tokens ++ [eof] ∧ Covers text.toList tokens eof := by
  have htiles := tiles_ofText text
  have hoffset : (ofText text).eof.start.offset = text.toList.length := by
    rw [start_eof]
    rfl
  refine ⟨(ofText text).tokens, (ofText text).eof, rfl, ?_⟩
  refine { eof_kind := rfl, eof_lexeme := rfl, eof_offset := hoffset,
           kind_ne := fun t ht => (htiles.isPiece ht).kind_ne, lexeme_ne := fun t ht hempty => ?_,
           slice := fun t => slice_eq, increasing := pairwise_offset text, apart := ?_,
           outside := fun i c hi houtside => ?_,
           inside := fun t ht => (htiles.isPiece ht).not_isBlank, place := fun t => start_eq }
  · have hpos := (htiles.isPiece ht).length_pos
    rw [hempty] at hpos
    exact absurd hpos (by decide)
  · refine List.pairwise_append.mpr ⟨htiles.pairwise, List.pairwise_singleton _ _, ?_⟩
    intro t ht u hu
    rw [List.mem_singleton.mp hu, hoffset]
    exact end_le ht
  · refine htiles.isBlank_of_getElem? hi fun t ht => ?_
    simpa [Position.start] using houtside t ht

end Source

end Propositional
