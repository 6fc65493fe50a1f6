/-
The tokens of a text and their places, character by character.

* `Position.advance`: the place reached after some characters, where every line feed
  starts a new line.
* `Token.scanFrom`: the tokens of the characters that begin at a place.
* `Line.advance_place`: counting the line feeds of a run of characters and looking for
  the last one leads to the same place as going from character to character.
* `Source.tokens_ofText`, `Source.stop_ofText`: hence a text is cut into these tokens,
  and ends there, although only white space is looked at for line feeds: no other piece
  holds any.
* `Token.exists_munch_of_mem`, `Token.isPiece_of_mem`: every token is the first piece
  behind what stands in front of it, and a piece on its own.
* `Token.IsPiece.scanFrom`: a piece is found again in front of any text that breaks.
* `Token.scanFrom_append`: a text is cut in two at a character that breaks.
-/
import Propositional.Proofs.Pieces
import Propositional.Token.Source

namespace Propositional

/-! ### Places -/

namespace Position

/-- The place after one character. -/
def next (p : Position) (c : Char) : Position :=
  if c = '\n' then ⟨p.line + 1, 1, p.offset + 1⟩ else ⟨p.line, p.column + 1, p.offset + 1⟩

/-- The place after some characters. -/
def advance (p : Position) (cs : List Char) : Position := cs.foldl next p

@[simp] lemma advance_nil (p : Position) : p.advance [] = p := rfl

@[simp] lemma advance_cons (p : Position) (c : Char) (cs : List Char) :
    p.advance (c :: cs) = (p.next c).advance cs := rfl

lemma advance_append (p : Position) (cs ds : List Char) :
    p.advance (cs ++ ds) = (p.advance cs).advance ds := List.foldl_append

lemma offset_next (p : Position) (c : Char) : (p.next c).offset = p.offset + 1 := by
  rw [next]
  split <;> rfl

lemma offset_advance (p : Position) (cs : List Char) :
    (p.advance cs).offset = p.offset + cs.length := by
  induction cs generalizing p with
  | nil => rfl
  | cons c cs ih =>
      rw [advance_cons, ih, offset_next, List.length_cons]
      omega

end Position

/-! ### One pass over the characters -/

/-- The tokens of the characters that begin at `p`, the first `n` of which belong
to a piece that was taken before. -/
def Token.scanFrom (p : Position) : ℕ → List Char → List Token
  | _, [] => []
  | n + 1, c :: cs => scanFrom (p.next c) n cs
  | 0, c :: cs =>
    let (kind, n) := munch c cs
    let rest := scanFrom (p.next c) n cs
    match kind with
    | none => rest
    | some k => ⟨k, String.ofList (c :: cs.take n), p⟩ :: rest

/-- The characters of a piece that was taken before only move the place on. -/
lemma Token.scanFrom_eq (p : Position) (n : ℕ) (cs : List Char) :
    scanFrom p n cs = scanFrom (p.advance (cs.take n)) 0 (cs.drop n) := by
  induction n generalizing p cs with
  | zero => simp
  | succ n ih =>
    cases cs with
    | nil => simp [scanFrom]
    | cons c cs => simp [scanFrom, ih (p.next c) cs]

/-! ### Line feeds counted in white space -/

namespace Line

variable {l : Line} {o : ℕ}

/-- One more character behind a run, which starts a line exactly if it is a line feed. -/
lemma pass_append_singleton (l : Line) (o : ℕ) (cs : List Char) (c : Char) :
    l.pass o (cs ++ [c]) =
      if c = '\n' then ⟨(l.pass o cs).number + 1, o + cs.length + 1⟩ else l.pass o cs := by
  by_cases hc : c = '\n'
  · subst hc
    have hnumber : (l.pass o cs).number = l.number + cs.count '\n' := by
      rw [pass]
      split
      · next hzero => rw [hzero, Nat.add_zero]
      · rfl
    rw [if_pos rfl, hnumber]
    simp [pass, Text.lastIndex, Nat.add_assoc]
  · have hlast : Text.lastIndex '\n' (cs ++ [c]) = Text.lastIndex '\n' cs := by
      rw [Text.lastIndex, Text.lastIndex, List.reverse_append, List.reverse_singleton,
        List.singleton_append, List.idxOf_cons_ne _ hc, List.length_append,
        List.length_singleton]
      omega
    have hcount : (cs ++ [c]).count '\n' = cs.count '\n' := by simp [hc]
    rw [if_neg hc, pass, pass, hlast, hcount]

/-- The line that is reached starts no later than where the run ends. -/
lemma start_pass_le (h : l.start ≤ o) (cs : List Char) : (l.pass o cs).start ≤ o + cs.length := by
  induction cs using List.reverseRecOn with
  | nil => exact h
  | append_singleton cs c ih =>
      rw [pass_append_singleton, List.length_append, List.length_singleton]
      split
      · exact le_rfl
      · omega

/-- Going through a run from character to character leads to the place that its line feeds
tell. -/
lemma advance_place (h : l.start ≤ o) (cs : List Char) :
    (l.place o).advance cs = (l.pass o cs).place (o + cs.length) := by
  induction cs using List.reverseRecOn with
  | nil => rfl
  | append_singleton cs c ih =>
      have hle := start_pass_le h cs
      rw [Position.advance_append, ih, pass_append_singleton, List.length_append,
        List.length_singleton, Position.advance_cons, Position.advance_nil, Position.next]
      split
      · simp [place, Nat.add_assoc]
      · simp only [place, Position.mk.injEq, true_and]
        omega

end Line

namespace Token

open Text

variable {c d : Char} {cs ds : List Char} {kind : Kind} {k : ℕ}

/-- There is no line feed in a piece that is not white space. -/
lemma pass_of_munch (h : munch c cs = (some kind, k)) (l : Line) (o : ℕ) :
    l.pass o (c :: cs.take k) = l := by
  obtain ⟨piece, rest, rfl, rfl, hpiece⟩ := exists_piece h
  have hlist : (String.ofList (c :: piece)).toList = c :: piece := String.toList_ofList
  have hcount : (c :: piece).count '\n' = 0 := by
    refine List.count_eq_zero.mpr fun hmem => ?_
    have htext : IsPiece kind (String.ofList (c :: piece)) := ⟨c, piece, hlist, hpiece⟩
    have hblank := htext.not_isBlank '\n' (by rw [hlist]; exact hmem)
    have hfeed : isBlank '\n' = true := by decide +kernel
    rw [hfeed] at hblank
    cases hblank
  rw [List.take_left, Line.pass, hcount, if_pos rfl]

/-- The pass that keeps the line finds the same tokens as the one that keeps the place.  The
line may already be the one behind the piece that is being passed over. -/
lemma scan_spec {l : Line} {o n : ℕ} {p : Position} (hstart : l.start ≤ o + (cs.take n).length)
    (hp : p.advance (cs.take n) = l.place (o + (cs.take n).length)) :
    (scan l o n cs).1 = scanFrom p n cs ∧
      (scan l o n cs).2.place (o + cs.length) = p.advance cs := by
  induction cs generalizing l o n p with
  | nil =>
      rw [List.take_nil] at hp
      cases n <;> exact ⟨rfl, hp.symm⟩
  | cons c cs ih =>
      have hlength : ∀ m, o + 1 + m = o + (m + 1) := fun m => by omega
      cases n with
      | succ n =>
          rw [List.take_succ_cons, List.length_cons, ← hlength] at hstart hp
          rw [List.length_cons, ← hlength]
          exact ih hstart hp
      | zero =>
          obtain rfl : p = l.place o := hp
          have hpass := Line.start_pass_le hstart
          have hplace := Line.advance_place hstart
          rw [List.take_zero, List.length_nil, Nat.add_zero] at hpass hplace
          rw [scan, scanFrom, List.length_cons, ← hlength cs.length]
          cases hm : munch c cs with
          | mk found k =>
              have hpass' := hpass (c :: cs.take k)
              have hplace' := hplace (c :: cs.take k)
              rw [List.length_cons, ← hlength] at hpass' hplace'
              cases found with
              | none => exact ih hpass' hplace'
              | some kind =>
                  rw [pass_of_munch hm] at hpass' hplace'
                  obtain ⟨htokens, hlast⟩ := ih hpass' hplace'
                  exact ⟨congrArg _ htokens, hlast⟩

end Token

namespace Source

lemma tokens_ofText (text : String) :
    (ofText text).tokens = Token.scanFrom .start 0 text.toList :=
  (Token.scan_spec (Nat.zero_le _) rfl).1

lemma stop_ofText (text : String) :
    (ofText text).stop = Position.start.advance text.toList := by
  have hlast : (Token.scan {} 0 0 text.toList).2.place (0 + text.toList.length) =
      Position.start.advance text.toList := (Token.scan_spec (Nat.zero_le _) rfl).2
  rwa [Nat.zero_add] at hlast

end Source

namespace Token

open Text

variable {c d : Char} {cs ds : List Char} {kind : Kind} {k : ℕ}

/-! ### Tokens and pieces -/

/-- What one character adds to the tokens of those behind it: nothing, or the piece
that begins there. -/
lemma scanFrom_cons_cases (p : Position) (n : ℕ) (c : Char) (cs : List Char) :
    ∃ k, scanFrom p n (c :: cs) = scanFrom (p.next c) k cs ∨
      ∃ kind, munch c cs = (some kind, k) ∧
        scanFrom p n (c :: cs) =
          ⟨kind, String.ofList (c :: cs.take k), p⟩ :: scanFrom (p.next c) k cs := by
  cases n with
  | succ n => exact ⟨n, .inl rfl⟩
  | zero =>
      rw [scanFrom]
      rcases munch c cs with ⟨_ | kind, k⟩
      · exact ⟨k, .inl rfl⟩
      · exact ⟨k, .inr ⟨kind, rfl, rfl⟩⟩

/-- A token is the first piece of the text behind what stands before it. -/
lemma exists_munch_of_mem {p : Position} {n : ℕ} {t : Token} (h : t ∈ scanFrom p n cs) :
    ∃ before c ds k, cs = before ++ c :: ds ∧ t.start = p.advance before ∧
      munch c ds = (some t.kind, k) ∧ t.lexeme = String.ofList (c :: ds.take k) := by
  induction cs generalizing p n with
  | nil => simp [scanFrom] at h
  | cons c cs ih =>
      have hlater : ∀ k, t ∈ scanFrom (p.next c) k cs →
          ∃ before d ds k, c :: cs = before ++ d :: ds ∧ t.start = p.advance before ∧
            munch d ds = (some t.kind, k) ∧ t.lexeme = String.ofList (d :: ds.take k) := by
        intro k hk
        obtain ⟨before, d, ds, k, rfl, hstart, hpiece⟩ := ih hk
        exact ⟨c :: before, d, ds, k, rfl, hstart, hpiece⟩
      obtain ⟨k, hs | ⟨kind, hm, hs⟩⟩ := scanFrom_cons_cases p n c cs
      · exact hlater k (hs ▸ h)
      · rw [hs] at h
        rcases List.mem_cons.mp h with rfl | h
        · exact ⟨[], c, cs, k, rfl, rfl, hm, rfl⟩
        · exact hlater k h

/-- The lexeme of a token is a single piece. -/
lemma isPiece_of_mem {text : String} {t : Token} (h : t ∈ (Source.ofText text).tokens) :
    IsPiece t.kind t.lexeme := by
  rw [Source.tokens_ofText] at h
  obtain ⟨-, c, ds, k, -, -, hm, hlexeme⟩ := exists_munch_of_mem h
  obtain ⟨piece, rest, rfl, rfl, hpiece⟩ := exists_piece hm
  refine ⟨c, piece, ?_, hpiece⟩
  rw [hlexeme, String.toList_ofList, List.take_left]

/-- The first piece of a text is its first token, and the scan goes on behind it. -/
lemma scanFrom_piece {piece rest : List Char}
    (h : munch c (piece ++ rest) = (some kind, piece.length)) (p : Position) :
    Token.scanFrom p 0 (c :: (piece ++ rest)) =
      ⟨kind, String.ofList (c :: piece), p⟩ ::
        Token.scanFrom (p.advance (c :: piece)) 0 rest := by
  rw [Token.scanFrom, h]
  dsimp only
  rw [scanFrom_eq, List.take_left, List.drop_left]
  rfl

/-- A single piece is found again in front of any text that does not go on with it. -/
lemma IsPiece.scanFrom {n : String} (h : IsPiece kind n) (p : Position) {rest : List Char}
    (hrest : Breaks rest) :
    Token.scanFrom p 0 (n.toList ++ rest) =
      ⟨kind, n, p⟩ :: Token.scanFrom (p.advance n.toList) 0 rest := by
  obtain ⟨c, cs, hn, hm⟩ := h
  have hblank : isBlank c = false := (munch_eq_some_iff.mp hm).1
  have hmunch : munch c (cs ++ rest) = (some kind, cs.length) := by
    cases rest with
    | nil => rwa [List.append_nil]
    | cons d ds => rw [munch_append (hrest d rfl) (.inl hblank), hm]
  have hlexeme : String.ofList (c :: cs) = n := by rw [← hn, String.ofList_toList]
  rw [hn, List.cons_append, scanFrom_piece hmunch, hlexeme]

/-! ### Texts cut in two -/

/-- White space at the front of a text only moves the place on. -/
lemma scanFrom_blank (hc : isBlank c = true) (p : Position) :
    Token.scanFrom p 0 (c :: cs) = Token.scanFrom (p.next c) 0 cs := by
  have hmunch : ∀ c cs, isBlank c = true → munch c cs = (none, (cs.takeWhile isBlank).length) :=
    fun c cs h => by rw [munch, if_pos h]
  rw [Token.scanFrom, hmunch c cs hc]
  dsimp only
  cases cs with
  | nil => rfl
  | cons d ds =>
      cases hd : isBlank d with
      | true =>
          rw [List.takeWhile_cons_of_pos hd, List.length_cons, Token.scanFrom, Token.scanFrom,
            hmunch d ds hd]
      | false => rw [List.takeWhile_cons_of_neg (by simp [hd]), List.length_nil]

/-- A text without tokens is white space. -/
lemma scanFrom_eq_nil_iff {cs : List Char} {p : Position} :
    Token.scanFrom p 0 cs = [] ↔ ∀ c ∈ cs, isBlank c = true := by
  induction cs generalizing p with
  | nil => exact ⟨fun _ c hc => absurd hc List.not_mem_nil, fun _ => rfl⟩
  | cons c cs ih =>
      rw [List.forall_mem_cons]
      cases hc : isBlank c with
      | true => rw [scanFrom_blank hc, ih, and_iff_right rfl]
      | false =>
          obtain ⟨kind, n, hm⟩ := exists_munch hc cs
          rw [Token.scanFrom, hm]
          refine ⟨fun h => absurd h (List.cons_ne_nil _ _), ?_⟩
          rintro ⟨h, -⟩
          cases h

/-- A text is cut in two at a character that breaks and is no white space. -/
lemma scanFrom_append (hd : breaks d = true) (hblank : isBlank d = false) (p : Position) {n : ℕ}
    (hn : n ≤ cs.length) :
    Token.scanFrom p n (cs ++ d :: ds) =
      Token.scanFrom p n cs ++ Token.scanFrom (p.advance cs) 0 (d :: ds) := by
  induction cs generalizing p n with
  | nil =>
      obtain rfl : n = 0 := Nat.le_zero.mp hn
      rfl
  | cons c cs ih =>
      rw [List.cons_append, Position.advance_cons]
      cases n with
      | succ n =>
          rw [Token.scanFrom, Token.scanFrom]
          exact ih (p.next c) (Nat.le_of_succ_le_succ hn)
      | zero =>
          have hle := munch_le c cs
          rw [Token.scanFrom, Token.scanFrom, munch_append hd (.inr hblank)]
          generalize munch c cs = found at hle
          obtain ⟨_ | kind, k⟩ := found
          · exact ih (p.next c) hle
          · dsimp only at hle ⊢
            rw [ih (p.next c) hle, List.take_append_of_le_length hle, List.cons_append]

end Token

end Propositional
