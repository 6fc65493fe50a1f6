/-
Pieces of a text on their own and in front of others.

* `Text.breaks`: the characters that no name, number or operator before them goes on
  with.
* `Token.munch_append`: what stands behind such a character does not change the piece
  before it.
* `Token.exists_piece`: a piece is also the first piece of its own characters.
* `Token.IsPiece`: a text that is one piece, and by `Token.IsPiece.cases` a word, a
  number, an operator or a single character.
* `Token.IsPiece.not_isBlank`: no piece holds white space.
-/
import Mathlib.Data.List.TakeWhile
import Mathlib.Tactic
import Propositional.Proofs.Entries
import Propositional.Token.Spelling

namespace Propositional

/-! ### Characters that end a piece -/

namespace Text

/-- The signs that stand within numbers and operators. -/
def innerSigns : List Char := ['.', '-', '>', '=', '|', '&']

/-- A character that goes on with no name, no number and no operator. -/
def breaks (c : Char) : Bool := !continuesName c && !isDecimal c && !innerSigns.contains c

/-- A text that goes on with no piece before it: it is empty, or a character that breaks
stands in front. -/
def Breaks (cs : List Char) : Prop := ∀ c ∈ cs.head?, breaks c = true

variable {d : Char} {cs ds : List Char}

lemma breaks_nil : Breaks [] := fun _ h => by cases h

lemma breaks_cons (h : breaks d = true) : Breaks (d :: ds) := by
  intro c hc
  obtain rfl := Option.some.inj hc
  exact h

lemma breaks_iff :
    breaks d = true ↔ continuesName d = false ∧ isDecimal d = false ∧ d ∉ innerSigns := by
  simp [breaks, and_assoc]

/-- What is taken from the front of a text stops in front of a character that is not
taken. -/
lemma takeWhile_append_cons {p : Char → Bool} (hd : p d = false) :
    (cs ++ d :: ds).takeWhile p = cs.takeWhile p := by
  induction cs with
  | nil => simp [hd]
  | cons c cs ih => cases hc : p c <;> simp [hc, ih]

/-- A spelling without a character is not found across it. -/
lemma isPrefixOf_append_cons {l : List Char} (hd : d ∉ l) :
    l.isPrefixOf (cs ++ d :: ds) = l.isPrefixOf cs := by
  induction l generalizing cs with
  | nil => simp
  | cons a l ih =>
      rw [List.mem_cons, not_or] at hd
      cases cs with
      | nil => simp [List.isPrefixOf, Ne.symm hd.1]
      | cons c cs => simp [List.isPrefixOf, ih hd.2]

end Text

/-! ### Characters that are no white space -/

namespace Text

/-- A number in a table of ranges lies in one of them. -/
lemma exists_of_within {table : List (ℕ × ℕ)} {n : ℕ} (h : within table n = true) :
    ∃ range ∈ table, range.1 ≤ n ∧ n ≤ range.2 := by
  induction table with
  | nil => cases h
  | cons range table ih =>
      rw [within, Bool.and_eq_true, Bool.or_eq_true, decide_eq_true_eq, decide_eq_true_eq] at h
      rcases h with ⟨hlow, hhigh | hlater⟩
      · exact ⟨range, List.mem_cons_self, hlow, hhigh⟩
      · obtain ⟨later, hmem, hbounds⟩ := ih hlater
        exact ⟨later, List.mem_cons_of_mem _ hmem, hbounds⟩

/-- Whether the ranges of two tables are apart from each other.  The tables are long, so that
the comparisons are those that the kernel does by machine arithmetic. -/
def apart (table other : List (ℕ × ℕ)) : Bool :=
  table.all fun r => other.all fun s => Nat.blt r.2 s.1 || Nat.blt s.2 r.1

/-- No number lies in two tables that are apart from each other. -/
lemma within_eq_false {table other : List (ℕ × ℕ)} {n : ℕ} (hapart : apart table other = true)
    (h : within table n = true) : within other n = false := by
  obtain ⟨r, hr, hlow, hhigh⟩ := exists_of_within h
  rw [← Bool.not_eq_true]
  intro hother
  obtain ⟨s, hs, hlow', hhigh'⟩ := exists_of_within hother
  have := List.all_eq_true.mp (List.all_eq_true.mp hapart r hr) s hs
  rw [Bool.or_eq_true, Nat.blt_eq, Nat.blt_eq] at this
  omega

lemma isBlank_of_isDecimal {c : Char} (h : isDecimal c = true) : isBlank c = false :=
  within_eq_false (by decide +kernel) h

lemma isBlank_of_continuesName {c : Char} (h : continuesName c = true) : isBlank c = false := by
  rw [continuesName, startsName, Bool.or_eq_true, Bool.or_eq_true, beq_iff_eq] at h
  rcases h with (rfl | hletter) | hdecimal
  · decide +kernel
  · exact within_eq_false (by decide +kernel) hletter
  · exact isBlank_of_isDecimal hdecimal

end Text

namespace Token

open Text

variable {c d : Char} {cs ds : List Char} {kind : Kind} {k : ℕ}

/-! ### The first piece -/

lemma operators_ne_nil : ∀ op ∈ operators, op.1 ≠ [] := by decide

/-- No operator goes on with a character that breaks. -/
lemma isPrefixOf_append (hd : breaks d = true) {op : List Char × Kind} (h : op ∈ operators) :
    op.1.isPrefixOf (c :: (cs ++ d :: ds)) = op.1.isPrefixOf (c :: cs) := by
  have htails : ∀ op ∈ operators, op.1.tail.all innerSigns.contains = true := by decide
  have hmem : d ∉ op.1.tail := by
    intro hmem
    have hinner := List.all_eq_true.mp (htails op h) d hmem
    exact (breaks_iff.mp hd).2.2 (List.contains_iff_mem.mp hinner)
  cases hop : op.1 with
  | nil => rfl
  | cons a l =>
      rw [hop, List.tail_cons] at hmem
      rw [List.isPrefixOf, List.isPrefixOf, isPrefixOf_append_cons hmem]

/-- A number ends in front of a character that breaks. -/
lemma numberLength_append (hd : breaks d = true) :
    numberLength (cs ++ d :: ds) = numberLength cs := by
  obtain ⟨-, hdecimal, hsign⟩ := breaks_iff.mp hd
  have hpoint : d ≠ '.' := fun h => hsign (h ▸ by decide)
  have hle : (cs.takeWhile isDecimal).length ≤ cs.length := (List.takeWhile_sublist _).length_le
  rw [numberLength, numberLength, takeWhile_append_cons hdecimal]
  dsimp only
  rw [List.drop_append_of_le_length hle]
  cases cs.drop (cs.takeWhile isDecimal).length with
  | nil => simp [hpoint]
  | cons e fraction =>
      by_cases he : e = '.'
      · simp [he, takeWhile_append_cons hdecimal]
      · simp [he]

/-- What stands behind a character that breaks does not change the piece before it. -/
lemma munch_append (hd : breaks d = true) (hblank : isBlank c = false ∨ isBlank d = false) :
    munch c (cs ++ d :: ds) = munch c cs := by
  have hfind : operators.find? (fun op => op.1.isPrefixOf (c :: (cs ++ d :: ds))) =
      operators.find? (fun op => op.1.isPrefixOf (c :: cs)) :=
    List.find?_congr fun op hop => isPrefixOf_append hd hop
  rw [munch, munch]
  cases hc : isBlank c with
  | true => simp [takeWhile_append_cons (hblank.resolve_left (by simp [hc]))]
  | false => simp [takeWhile_append_cons (breaks_iff.mp hd).1, numberLength_append hd, hfind]

/-- The length of a number whose whole part is known. -/
lemma numberLength_append_of_decimal {whole rest : List Char}
    (hwhole : ∀ c ∈ whole, isDecimal c = true) (hrest : ∀ c ∈ rest.head?, isDecimal c = false) :
    numberLength (whole ++ rest) = whole.length + numberLength rest := by
  have htake : (whole ++ rest).takeWhile isDecimal = whole := by
    rw [List.takeWhile_append_of_pos hwhole]
    cases rest with
    | nil => simp
    | cons c rest => simp [hrest c rfl]
  have hrest' : rest.takeWhile isDecimal = [] := by
    cases rest with
    | nil => rfl
    | cons c rest => simp [hrest c rfl]
  rw [numberLength, numberLength, htake, hrest']
  dsimp only
  rw [List.drop_left, List.length_nil, List.drop_zero]
  cases rest with
  | nil => rfl
  | cons c rest =>
      by_cases hc : c = '.'
      · subst hc
        show (if _ = 0 then _ else _) = _ + (if _ = 0 then 0 else _)
        split <;> omega
      · simp [hc]

/-- What stands behind the digits of a text begins with none. -/
lemma head_dropWhile_isDecimal (cs : List Char) :
    ∀ c ∈ (cs.dropWhile isDecimal).head?, isDecimal c = false := by
  intro c hc
  have := List.head?_dropWhile_not isDecimal cs
  rwa [hc] at this

/-- The length of the fraction of a number. -/
lemma numberLength_point (fraction : List Char) :
    numberLength ('.' :: fraction) =
      if fraction.takeWhile isDecimal = [] then 0
      else 1 + (fraction.takeWhile isDecimal).length := by
  have hpoint : isDecimal '.' = false := by decide +kernel
  simp [numberLength, hpoint]

/-- A text that begins with no digit goes on with a number that is empty or a fraction. -/
lemma numberLength_cases (hcs : ∀ c ∈ cs.head?, isDecimal c = false) :
    numberLength cs = 0 ∨ ∃ fraction, cs = '.' :: fraction ∧
      fraction.takeWhile isDecimal ≠ [] ∧
      numberLength cs = 1 + (fraction.takeWhile isDecimal).length := by
  cases cs with
  | nil => exact .inl rfl
  | cons c fraction =>
      by_cases hc : c = '.'
      · subst hc
        rw [numberLength_point]
        split
        · exact .inl rfl
        · exact .inr ⟨fraction, rfl, ‹_›, rfl⟩
      · refine .inl ?_
        simp [numberLength, hcs c rfl, hc]

/-- A number is its digits and what they are followed by. -/
lemma numberLength_eq (cs : List Char) :
    numberLength cs = (cs.takeWhile isDecimal).length + numberLength (cs.dropWhile isDecimal) := by
  have hwhole : ∀ c ∈ cs.takeWhile isDecimal, isDecimal c = true :=
    fun c hc => List.mem_takeWhile_imp hc
  have hsplit := numberLength_append_of_decimal hwhole (head_dropWhile_isDecimal cs)
  rwa [List.takeWhile_append_dropWhile] at hsplit

/-- A number is also the number at the front of its own characters. -/
lemma exists_number (cs : List Char) :
    ∃ number rest, cs = number ++ rest ∧ numberLength cs = number.length ∧
      numberLength number = number.length := by
  have hwhole : ∀ c ∈ cs.takeWhile isDecimal, isDecimal c = true :=
    fun c hc => List.mem_takeWhile_imp hc
  have hsplit : cs.takeWhile isDecimal ++ cs.dropWhile isDecimal = cs :=
    List.takeWhile_append_dropWhile
  have hlength := numberLength_eq cs
  rcases numberLength_cases (head_dropWhile_isDecimal cs) with
    hzero | ⟨fraction, hfraction, hdigits, hnumber⟩
  · refine ⟨cs.takeWhile isDecimal, cs.dropWhile isDecimal, hsplit.symm, ?_, ?_⟩
    · rw [hlength, hzero, Nat.add_zero]
    · have hplain := numberLength_append_of_decimal hwhole
        (show ∀ c ∈ [].head?, isDecimal c = false by simp)
      rwa [List.append_nil] at hplain
  · have hpoint : isDecimal '.' = false := by decide +kernel
    refine ⟨cs.takeWhile isDecimal ++ '.' :: fraction.takeWhile isDecimal,
      fraction.dropWhile isDecimal, ?_, ?_, ?_⟩
    · rw [List.append_assoc, List.cons_append, List.takeWhile_append_dropWhile, ← hfraction,
        hsplit]
    · rw [hlength, hnumber]
      simp
      omega
    · rw [numberLength_append_of_decimal hwhole (by simpa using hpoint), numberLength_point,
        List.takeWhile_idem, if_neg hdigits]
      simp
      omega

/-- A text that is one number is made of digits and points. -/
lemma mem_number (hcs : numberLength cs = cs.length) (h : d ∈ cs) :
    isDecimal d = true ∨ d = '.' := by
  have hlength := congrArg List.length
    (List.takeWhile_append_dropWhile : cs.takeWhile isDecimal ++ cs.dropWhile isDecimal = cs)
  rw [List.length_append] at hlength
  rw [numberLength_eq] at hcs
  rw [← List.takeWhile_append_dropWhile (p := isDecimal) (l := cs), List.mem_append] at h
  rcases h with h | h
  · exact .inl (List.mem_takeWhile_imp h)
  · have hpos := List.length_pos_of_mem h
    rcases numberLength_cases (head_dropWhile_isDecimal cs) with
      hzero | ⟨fraction, hfraction, -, hnumber⟩
    · omega
    · rw [hfraction] at h hnumber hlength hcs
      have hall : fraction.takeWhile isDecimal = fraction := by
        refine (List.takeWhile_prefix _).eq_of_length ?_
        rw [List.length_cons] at hlength
        omega
      rcases List.mem_cons.mp h with rfl | h
      · exact .inr rfl
      · rw [← hall] at h
        exact .inl (List.mem_takeWhile_imp h)

/-- What the first piece of a text is: a word, a number, the first operator in the list
that stands there, or a character that starts none of them. -/
lemma munch_eq_some_iff {c : Char} {cs : List Char} :
    munch c cs = (some kind, k) ↔ isBlank c = false ∧
      ((startsName c = true ∧ wordKind (c :: cs.takeWhile continuesName) = kind ∧
          (cs.takeWhile continuesName).length = k) ∨
        (startsName c = false ∧ isDecimal c = true ∧ .number = kind ∧ numberLength cs = k) ∨
        (startsName c = false ∧ isDecimal c = false ∧
          ∃ spelling, operators.find? (fun op => op.1.isPrefixOf (c :: cs)) =
            some (spelling, kind) ∧ spelling.length - 1 = k) ∨
        (startsName c = false ∧ isDecimal c = false ∧
          operators.find? (fun op => op.1.isPrefixOf (c :: cs)) = none ∧
          .unknown = kind ∧ 0 = k)) := by
  rw [munch]
  cases isBlank c with
  | true => simp
  | false =>
      cases startsName c with
      | true => simp
      | false =>
          cases isDecimal c with
          | true => simp
          | false =>
              generalize operators.find? (fun op => op.1.isPrefixOf (c :: cs)) = found
              rcases found with _ | ⟨spelling, kind'⟩
              · simp
              · simp [and_assoc]

/-- At a character that is no white space there is a piece. -/
lemma exists_munch (hc : isBlank c = false) (cs : List Char) :
    ∃ kind k, munch c cs = (some kind, k) := by
  rw [munch, if_neg (by rw [hc]; exact Bool.false_ne_true)]
  split
  · exact ⟨_, _, rfl⟩
  · split
    · exact ⟨_, _, rfl⟩
    · split <;> exact ⟨_, _, rfl⟩

/-- A piece is made of characters of its text, and it is also the first piece of these
alone. -/
lemma exists_piece {c : Char} {cs : List Char} (h : munch c cs = (some kind, k)) :
    ∃ piece rest, cs = piece ++ rest ∧ piece.length = k ∧ munch c piece = (some kind, k) := by
  obtain ⟨hblank, h⟩ := munch_eq_some_iff.mp h
  rcases h with ⟨hstart, hkind, hk⟩ | ⟨hstart, hdecimal, hkind, hk⟩ |
    ⟨hstart, hdecimal, spelling, hfind, hk⟩ | ⟨hstart, hdecimal, hfind, hkind, hk⟩
  · refine ⟨cs.takeWhile continuesName, cs.dropWhile continuesName, ?_, hk, ?_⟩
    · rw [List.takeWhile_append_dropWhile]
    · refine munch_eq_some_iff.mpr ⟨hblank, .inl ⟨hstart, ?_, ?_⟩⟩
      · rw [List.takeWhile_idem, hkind]
      · rw [List.takeWhile_idem, hk]
  · obtain ⟨number, rest, hcs, hlength, hnumber⟩ := exists_number cs
    refine ⟨number, rest, hcs, hlength.symm.trans hk, ?_⟩
    refine munch_eq_some_iff.mpr ⟨hblank, .inr (.inl ⟨hstart, hdecimal, hkind, ?_⟩)⟩
    rw [hnumber, ← hlength, hk]
  · obtain ⟨hspelling, before, after, hoperators, hbefore⟩ :=
      List.find?_eq_some_iff_append.mp hfind
    obtain ⟨rest, hrest⟩ := List.isPrefixOf_iff_prefix.mp hspelling
    have hmem : (spelling, kind) ∈ operators := by rw [hoperators]; simp
    obtain ⟨e, piece, rfl⟩ := List.exists_cons_of_ne_nil (operators_ne_nil _ hmem)
    obtain ⟨rfl, rfl⟩ := List.cons.inj hrest
    refine ⟨piece, rest, rfl, hk, ?_⟩
    refine munch_eq_some_iff.mpr ⟨hblank, .inr (.inr (.inl ⟨hstart, hdecimal, _, ?_, hk⟩))⟩
    refine List.find?_eq_some_iff_append.mpr ⟨by simp, before, after, hoperators, ?_⟩
    -- an earlier operator that stands here would stand in front of the whole text too
    intro op hop
    have hnot := hbefore op hop
    rw [Bool.not_eq_true', ← Bool.not_eq_true, List.isPrefixOf_iff_prefix] at hnot ⊢
    exact fun hinit => hnot (hinit.trans (List.prefix_append (e :: piece) rest))
  · refine ⟨[], cs, rfl, hk, ?_⟩
    refine munch_eq_some_iff.mpr ⟨hblank, .inr (.inr (.inr ⟨hstart, hdecimal, ?_, hkind, hk⟩))⟩
    refine List.find?_eq_none.mpr fun op hop hinit => ?_
    have hnot := List.find?_eq_none.mp hfind op hop
    rw [List.isPrefixOf_iff_prefix] at hnot hinit
    exact hnot (hinit.trans (List.prefix_append [c] cs))

lemma munch_le (c : Char) (cs : List Char) : (munch c cs).2 ≤ cs.length := by
  cases hm : munch c cs with
  | mk found k =>
      cases found with
      | some kind =>
          obtain ⟨piece, rest, rfl, rfl, -⟩ := exists_piece hm
          simp
      | none =>
          -- white space
          have hk : k = (cs.takeWhile isBlank).length := by
            rw [munch] at hm
            split at hm
            · exact (congrArg Prod.snd hm).symm
            · split at hm
              · cases hm
              · split at hm
                · cases hm
                · split at hm <;> cases hm
          rw [hk]
          exact (List.takeWhile_sublist _).length_le

/-! ### Texts of one piece -/

/-- A text that is a single piece of the given kind. -/
def IsPiece (kind : Kind) (n : String) : Prop :=
  ∃ c cs, n.toList = c :: cs ∧ munch c cs = (some kind, cs.length)

/-- A word is a name or one of the operators that are words. -/
lemma wordKind_cases (word : List Char) :
    wordKind word = .ident ∨ ∃ entry ∈ keywords, wordKind word = entry.2 := by
  rw [wordKind]
  cases hk : keywords.lookup (word.map Char.toLower) with
  | none => exact .inl rfl
  | some kind =>
      exact .inr ⟨(word.map Char.toLower, kind), Entries.mem_of_lookup hk, rfl⟩

/-- A word is no sign, and it is not the end of the text. -/
lemma wordKind_ne (word : List Char) :
    wordKind word ≠ .top ∧ wordKind word ≠ .bottom ∧ wordKind word ≠ .eof := by
  have hkeywords : ∀ entry ∈ keywords, entry.2 ≠ .top ∧ entry.2 ≠ .bottom ∧ entry.2 ≠ .eof := by
    decide
  rcases wordKind_cases word with hword | ⟨entry, hmem, hword⟩
  · simp [hword]
  · rw [hword]
    exact hkeywords entry hmem

/-- A single piece is a word, a number, an operator or a character that starts none of
them. -/
lemma IsPiece.cases {n : String} (h : IsPiece kind n) :
    (∃ c cs, n.toList = c :: cs ∧ startsName c = true ∧ (∀ d ∈ cs, continuesName d = true) ∧
      kind = wordKind n.toList) ∨
    (kind = .number ∧ ∀ d ∈ n.toList, isDecimal d = true ∨ d = '.') ∨
    ((n.toList, kind) ∈ operators) ∨
    (kind = .unknown ∧ ∃ c, n.toList = [c] ∧ isBlank c = false) := by
  obtain ⟨c, cs, hn, hm⟩ := h
  rw [hn]
  obtain ⟨hblank, ⟨hstart, hword, hlength⟩ | ⟨-, hdecimal, hnumber, hlength⟩ |
    ⟨-, -, spelling, hfind, hlength⟩ | ⟨-, -, -, hunknown, hlength⟩⟩ := munch_eq_some_iff.mp hm
  · have hall : cs.takeWhile continuesName = cs :=
      (List.takeWhile_prefix _).eq_of_length hlength
    rw [hall] at hword
    refine .inl ⟨c, cs, rfl, hstart, fun d hd => ?_, hword.symm⟩
    rw [← hall] at hd
    exact List.mem_takeWhile_imp hd
  · refine .inr (.inl ⟨hnumber.symm, fun d hd => ?_⟩)
    rcases List.mem_cons.mp hd with rfl | hd
    · exact .inl hdecimal
    · exact mem_number hlength hd
  · have hmem := List.mem_of_find?_eq_some hfind
    have hfound := List.find?_some hfind
    have hinit : spelling <+: c :: cs := List.isPrefixOf_iff_prefix.mp hfound
    have hpos : 0 < spelling.length := List.length_pos_iff.mpr (operators_ne_nil _ hmem)
    have heq : spelling = c :: cs := hinit.eq_of_length (by rw [List.length_cons]; omega)
    exact .inr (.inr (.inl (heq ▸ hmem)))
  · rw [List.eq_nil_of_length_eq_zero hlength.symm]
    exact .inr (.inr (.inr ⟨hunknown.symm, c, rfl, hblank⟩))

/-- The signs for the constants are operators. -/
lemma IsPiece.mem_operators {n : String} (h : IsPiece kind n)
    (hkind : kind = .top ∨ kind = .bottom) : (n.toList, kind) ∈ operators := by
  obtain ⟨-, -, -, -, -, hword⟩ | ⟨hnumber, -⟩ | hmem | ⟨hunknown, -⟩ := h.cases
  · rw [hword] at hkind
    exact (hkind.elim (wordKind_ne _).1 (wordKind_ne _).2.1).elim
  · simp [hnumber] at hkind
  · exact hmem
  · simp [hunknown] at hkind

/-- No operator holds white space, and none is the end of the text. -/
lemma operators_not_isBlank :
    ∀ op ∈ operators, (∀ c ∈ op.1, isBlank c = false) ∧ op.2 ≠ .eof := by
  have hblank : ∀ op ∈ operators, op.1.all (fun c => !isBlank c) = true := by decide +kernel
  have hkind : ∀ op ∈ operators, op.2 ≠ .eof := by decide
  refine fun op hop => ⟨fun c hc => ?_, hkind op hop⟩
  simpa using List.all_eq_true.mp (hblank op hop) c hc

/-- A piece holds no white space. -/
lemma IsPiece.not_isBlank {n : String} (h : IsPiece kind n) :
    ∀ c ∈ n.toList, isBlank c = false := by
  intro d hd
  obtain ⟨c, cs, hn, hstart, hall, -⟩ | ⟨-, hnumber⟩ | hmem | ⟨-, c, hn, hblank⟩ := h.cases
  · rw [hn] at hd
    refine isBlank_of_continuesName ?_
    rcases List.mem_cons.mp hd with rfl | hd
    · rw [continuesName, hstart, Bool.true_or]
    · exact hall d hd
  · rcases hnumber d hd with hdecimal | rfl
    · exact isBlank_of_isDecimal hdecimal
    · decide +kernel
  · exact (operators_not_isBlank _ hmem).1 d hd
  · rw [hn] at hd
    rwa [List.mem_singleton.mp hd]

lemma IsPiece.kind_ne {n : String} (h : IsPiece kind n) : kind ≠ .eof := by
  obtain ⟨-, -, -, -, -, hword⟩ | ⟨hnumber, -⟩ | hmem | ⟨hunknown, -⟩ := h.cases
  · rw [hword]
    exact (wordKind_ne _).2.2
  · simp [hnumber]
  · exact (operators_not_isBlank _ hmem).2
  · simp [hunknown]

lemma IsPiece.length_pos {n : String} (h : IsPiece kind n) : 0 < n.length := by
  obtain ⟨c, cs, hn, -⟩ := h
  rw [← String.length_toList, hn]
  exact Nat.succ_pos _

end Token

end Propositional
