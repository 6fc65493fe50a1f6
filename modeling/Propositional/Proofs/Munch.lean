/-
The longest pieces of a text.

* `Token.IsName`, `Token.IsNumber`, `Token.Spells`: the texts that are names and numbers, and
  the spellings of each kind of token.
* `Token.IsLongest`: a token that is the longest spelling at its place, or a single character
  at which no spelling begins; `Token.IsLongest.eq` says that there is one at each place.
* `Token.spells_of_munch`, `Token.length_le_of_munch`: the first piece of a text is its longest
  spelling, although it is the first of several ways to go on that is taken.
* `Source.Munches`: a list of longest tokens with white space between them.
* `Source.munches_iff`: for every text there is one such list, and it is that of its tokens.
-/
import Propositional.Proofs.Coverage

namespace Propositional

open Text

/-! ### Spellings -/

namespace Token

/-- A name: a character of names that is no decimal digit, and any characters of names
behind it. -/
def IsName (w : List Char) : Prop :=
  ∃ c cs, w = c :: cs ∧ continuesName c = true ∧ isDecimal c = false ∧
    ∀ d ∈ cs, continuesName d = true

/-- A number: decimal digits, and perhaps a point with decimal digits behind it. -/
def IsNumber (w : List Char) : Prop :=
  ∃ whole, whole ≠ [] ∧ (∀ d ∈ whole, isDecimal d = true) ∧
    (w = whole ∨ ∃ fraction, fraction ≠ [] ∧ (∀ d ∈ fraction, isDecimal d = true) ∧
      w = whole ++ '.' :: fraction)

/-- The spellings of the kinds of token: the listed signs, the words that are a keyword in
lower case, all other names, and numbers. -/
inductive Spells : List Char → Kind → Prop
  | sign {w : List Char} {kind : Kind} (h : (w, kind) ∈ operators) : Spells w kind
  | keyword {w : List Char} {kind : Kind} (h : IsName w)
      (hw : (w.map Char.toLower, kind) ∈ keywords) : Spells w kind
  | name {w : List Char} (h : IsName w)
      (hw : ∀ kind, (w.map Char.toLower, kind) ∉ keywords) : Spells w .ident
  | number {w : List Char} (h : IsNumber w) : Spells w .number

variable {c : Char} {w cs : List Char} {kind kind' : Kind} {k : ℕ}

/-! ### The first character of a spelling -/

/-- The characters that a name starts with are those of names that are no decimal digits. -/
lemma startsName_iff : startsName c = true ↔ continuesName c = true ∧ isDecimal c = false := by
  have hdigit : startsName c = true → isDecimal c = false := by
    intro h
    rw [startsName, Bool.or_eq_true, beq_iff_eq] at h
    rcases h with rfl | hletter
    · decide +kernel
    · exact within_eq_false (by decide +kernel) hletter
  rw [continuesName, Bool.or_eq_true]
  constructor
  · intro h
    exact ⟨.inl h, hdigit h⟩
  · rintro ⟨h | h, hd⟩
    · exact h
    · rw [hd] at h
      cases h

lemma startsName_of_isDecimal (h : isDecimal c = true) : startsName c = false := by
  rw [← Bool.not_eq_true, startsName_iff, h]
  simp

/-- A sign begins with a character that belongs neither to names nor to numbers. -/
lemma starts_of_mem_operators (h : (c :: cs, kind) ∈ operators) :
    startsName c = false ∧ isDecimal c = false := by
  have hheads : ∀ op ∈ operators,
      op.1.head?.all (fun c => !startsName c && !isDecimal c) = true := by decide +kernel
  simpa using hheads _ h

lemma isName_cons_iff :
    IsName (c :: cs) ↔ startsName c = true ∧ ∀ d ∈ cs, continuesName d = true := by
  rw [startsName_iff]
  constructor
  · rintro ⟨c', cs', hw, hc, hd, hcs⟩
    obtain ⟨rfl, rfl⟩ := List.cons.inj hw
    exact ⟨⟨hc, hd⟩, hcs⟩
  · rintro ⟨⟨hc, hd⟩, hcs⟩
    exact ⟨c, cs, rfl, hc, hd, hcs⟩

/-- A number begins with a digit, and then come digits or digits around a point. -/
lemma isNumber_cons_iff :
    IsNumber (c :: cs) ↔ isDecimal c = true ∧ ∃ whole, (∀ d ∈ whole, isDecimal d = true) ∧
      (cs = whole ∨ ∃ fraction, fraction ≠ [] ∧ (∀ d ∈ fraction, isDecimal d = true) ∧
        cs = whole ++ '.' :: fraction) := by
  constructor
  · rintro ⟨whole, hne, hwhole, hw⟩
    obtain ⟨d, whole, rfl⟩ := List.exists_cons_of_ne_nil hne
    rw [List.forall_mem_cons] at hwhole
    rcases hw with hw | ⟨fraction, hfraction, hdigits, hw⟩
    · obtain ⟨rfl, rfl⟩ := List.cons.inj hw
      exact ⟨hwhole.1, cs, hwhole.2, .inl rfl⟩
    · obtain ⟨rfl, rfl⟩ := List.cons.inj hw
      exact ⟨hwhole.1, whole, hwhole.2, .inr ⟨fraction, hfraction, hdigits, rfl⟩⟩
  · rintro ⟨hc, whole, hwhole, hw⟩
    refine ⟨c :: whole, List.cons_ne_nil _ _, List.forall_mem_cons.mpr ⟨hc, hwhole⟩, ?_⟩
    rcases hw with rfl | ⟨fraction, hfraction, hdigits, rfl⟩
    · exact .inl rfl
    · exact .inr ⟨fraction, hfraction, hdigits, rfl⟩

/-- No keyword is listed with two kinds, and no sign is. -/
lemma kind_eq_of_mem :
    (∀ a ∈ keywords, ∀ b ∈ keywords, a.1 = b.1 → a.2 = b.2) ∧
      ∀ a ∈ operators, ∀ b ∈ operators, a.1 = b.1 → a.2 = b.2 := by
  decide +kernel

/-- The kind of a word is that of the keyword that it is in lower case, if it is one. -/
lemma wordKind_eq_iff : wordKind w = kind ↔ (w.map Char.toLower, kind) ∈ keywords ∨
    ((∀ kind', (w.map Char.toLower, kind') ∉ keywords) ∧ kind = .ident) := by
  rw [wordKind]
  cases hlookup : keywords.lookup (w.map Char.toLower) with
  | some found =>
      have hfound := Entries.mem_of_lookup hlookup
      rw [Option.getD_some]
      constructor
      · rintro rfl
        exact .inl hfound
      · rintro (h | ⟨h, -⟩)
        · exact kind_eq_of_mem.1 _ hfound _ h rfl
        · exact absurd hfound (h found)
  | none =>
      have hnone : ∀ kind', (w.map Char.toLower, kind') ∉ keywords :=
        fun kind' h => Entries.lookup_eq_none_iff.mp hlookup (List.mem_map_of_mem h)
      rw [Option.getD_none]
      constructor
      · rintro rfl
        exact .inr ⟨hnone, rfl⟩
      · rintro (h | ⟨-, rfl⟩)
        · exact absurd h (hnone kind)
        · rfl

/-- What a spelling is can be told from its first character. -/
lemma spells_cons_iff : Spells (c :: cs) kind ↔
    (startsName c = true ∧ (∀ d ∈ cs, continuesName d = true) ∧ wordKind (c :: cs) = kind) ∨
    (startsName c = false ∧ isDecimal c = true ∧ IsNumber (c :: cs) ∧ .number = kind) ∨
    (startsName c = false ∧ isDecimal c = false ∧ (c :: cs, kind) ∈ operators) := by
  constructor
  · intro h
    cases h with
    | sign h =>
        obtain ⟨hstart, hdigit⟩ := starts_of_mem_operators h
        exact .inr (.inr ⟨hstart, hdigit, h⟩)
    | keyword h hw =>
        obtain ⟨hstart, hall⟩ := isName_cons_iff.mp h
        exact .inl ⟨hstart, hall, wordKind_eq_iff.mpr (.inl hw)⟩
    | name h hw =>
        obtain ⟨hstart, hall⟩ := isName_cons_iff.mp h
        exact .inl ⟨hstart, hall, wordKind_eq_iff.mpr (.inr ⟨hw, rfl⟩)⟩
    | number h =>
        have hdigit := (isNumber_cons_iff.mp h).1
        exact .inr (.inl ⟨startsName_of_isDecimal hdigit, hdigit, h, rfl⟩)
  · rintro (⟨hstart, hall, hword⟩ | ⟨-, -, h, rfl⟩ | ⟨-, -, h⟩)
    · have hname := isName_cons_iff.mpr ⟨hstart, hall⟩
      rcases wordKind_eq_iff.mp hword with hw | ⟨hw, hkind⟩
      · exact .keyword hname hw
      · rw [hkind]
        exact .name hname hw
    · exact .number h
    · exact .sign h

/-- The spellings that begin like a name. -/
lemma spells_iff_of_startsName (hc : startsName c = true) :
    Spells (c :: cs) kind ↔ (∀ d ∈ cs, continuesName d = true) ∧ wordKind (c :: cs) = kind := by
  rw [spells_cons_iff]
  simp [hc]

/-- The spellings that begin with a decimal digit. -/
lemma spells_iff_of_isDecimal (hstart : startsName c = false) (hc : isDecimal c = true) :
    Spells (c :: cs) kind ↔ IsNumber (c :: cs) ∧ .number = kind := by
  rw [spells_cons_iff]
  simp [hstart, hc]

/-- The spellings that begin with another character. -/
lemma spells_iff_mem_operators (hstart : startsName c = false) (hc : isDecimal c = false) :
    Spells (c :: cs) kind ↔ (c :: cs, kind) ∈ operators := by
  rw [spells_cons_iff]
  simp [hstart, hc]

lemma Spells.ne_nil (h : Spells w kind) : w ≠ [] := by
  rintro rfl
  cases h with
  | sign h => exact operators_ne_nil _ h rfl
  | keyword h | name h =>
      obtain ⟨c, cs, hw, -⟩ := h
      cases hw
  | number h =>
      obtain ⟨whole, hne, -, rfl | ⟨fraction, -, -, hw⟩⟩ := h
      · exact hne rfl
      · exact List.append_ne_nil_of_right_ne_nil _ (List.cons_ne_nil _ _) hw.symm

lemma Spells.kind_ne (h : Spells w kind) : kind ≠ .unknown := by
  have hsigns : ∀ op ∈ operators, op.2 ≠ .unknown := by decide
  have hwords : ∀ entry ∈ keywords, entry.2 ≠ .unknown := by decide
  cases h with
  | sign h => exact hsigns _ h
  | keyword h hw => exact hwords _ hw
  | name => simp
  | number => simp

lemma Spells.kind_eq (h : Spells w kind) (h' : Spells w kind') : kind = kind' := by
  obtain ⟨c, cs, rfl⟩ := List.exists_cons_of_ne_nil h.ne_nil
  cases hstart : startsName c with
  | true =>
      obtain ⟨-, hword⟩ := (spells_iff_of_startsName hstart).mp h
      obtain ⟨-, hword'⟩ := (spells_iff_of_startsName hstart).mp h'
      exact hword.symm.trans hword'
  | false =>
      cases hc : isDecimal c with
      | true =>
          obtain ⟨-, hkind⟩ := (spells_iff_of_isDecimal hstart hc).mp h
          obtain ⟨-, hkind'⟩ := (spells_iff_of_isDecimal hstart hc).mp h'
          exact hkind.symm.trans hkind'
      | false =>
          have hsign := (spells_iff_mem_operators hstart hc).mp h
          have hsign' := (spells_iff_mem_operators hstart hc).mp h'
          exact kind_eq_of_mem.2 _ hsign _ hsign' rfl

/-! ### The longest spelling -/

/-- A text of such characters at the front of another is within what is taken of them. -/
lemma length_le_takeWhile {p : Char → Bool} (hw : ∀ d ∈ w, p d = true) (h : w <+: cs) :
    w.length ≤ (cs.takeWhile p).length := by
  obtain ⟨rest, rfl⟩ := h
  rw [List.takeWhile_append_of_pos hw, List.length_append]
  exact Nat.le_add_right _ _

/-- No longer number stands at the front of a text than the one that is taken. -/
lemma length_le_numberLength (hw : IsNumber (c :: w)) (h : w <+: cs) :
    w.length ≤ numberLength cs := by
  obtain ⟨-, whole, hwhole, rfl | ⟨fraction, hne, hfraction, rfl⟩⟩ := isNumber_cons_iff.mp hw
  · calc
      w.length ≤ (cs.takeWhile isDecimal).length := length_le_takeWhile hwhole h
      _ ≤ numberLength cs := by
        rw [numberLength_eq]
        exact Nat.le_add_right _ _
  · obtain ⟨rest, rfl⟩ := h
    have hpoint : isDecimal '.' = false := by decide +kernel
    have htake := length_le_takeWhile hfraction (List.prefix_append fraction rest)
    have hpos := List.length_pos_iff.mpr hne
    have hdigits : (fraction ++ rest).takeWhile isDecimal ≠ [] :=
      List.length_pos_iff.mp (hpos.trans_le htake)
    rw [List.append_assoc, List.cons_append,
      numberLength_append_of_decimal hwhole (by simpa using hpoint), numberLength_point,
      if_neg hdigits, List.length_append, List.length_cons]
    omega

/-- The number that is taken is one. -/
lemma isNumber_take (hc : isDecimal c = true) (cs : List Char) :
    IsNumber (c :: cs.take (numberLength cs)) := by
  have hwhole : ∀ d ∈ cs.takeWhile isDecimal, isDecimal d = true :=
    fun d hd => List.mem_takeWhile_imp hd
  refine isNumber_cons_iff.mpr ⟨hc, cs.takeWhile isDecimal, hwhole, ?_⟩
  have hsplit : cs.takeWhile isDecimal ++ cs.dropWhile isDecimal = cs :=
    List.takeWhile_append_dropWhile
  rcases numberLength_cases (head_dropWhile_isDecimal cs) with
    hzero | ⟨fraction, hrest, hdigits, hnumber⟩
  · left
    rw [numberLength_eq, hzero, Nat.add_zero]
    exact (List.prefix_iff_eq_take.mp (List.takeWhile_prefix _)).symm
  · right
    refine ⟨fraction.takeWhile isDecimal, hdigits, fun d hd => List.mem_takeWhile_imp hd, ?_⟩
    have hinit : cs.takeWhile isDecimal ++ '.' :: fraction.takeWhile isDecimal <+: cs := by
      refine ⟨fraction.dropWhile isDecimal, ?_⟩
      rw [List.append_assoc, List.cons_append, List.takeWhile_append_dropWhile, ← hrest, hsplit]
    have hlength : numberLength cs =
        (cs.takeWhile isDecimal ++ '.' :: fraction.takeWhile isDecimal).length := by
      rw [numberLength_eq, hnumber, List.length_append, List.length_cons]
      omega
    rw [hlength]
    exact (List.prefix_iff_eq_take.mp hinit).symm

/-- The sign that is found first is the longest, since the longer ones come first. -/
lemma length_le_of_find? {spelling sign : List Char}
    (h : operators.find? (fun op => op.1.isPrefixOf cs) = some (spelling, kind))
    (hsign : (sign, kind') ∈ operators) (hinit : sign <+: cs) :
    sign.length ≤ spelling.length := by
  have hsorted : operators.Pairwise fun a b => b.1.length ≤ a.1.length := by decide
  obtain ⟨-, before, after, hoperators, hbefore⟩ := List.find?_eq_some_iff_append.mp h
  rw [hoperators, List.pairwise_append, List.pairwise_cons] at hsorted
  rw [hoperators, List.mem_append, List.mem_cons] at hsign
  rcases hsign with hsign | hsign | hsign
  · -- what is listed before the sign that is found does not stand here
    have hnot := hbefore _ hsign
    rw [Bool.not_eq_true', ← Bool.not_eq_true, List.isPrefixOf_iff_prefix] at hnot
    exact absurd hinit hnot
  · rw [(Prod.mk.inj hsign).1]
  · exact hsorted.2.1.1 _ hsign

lemma take_length_takeWhile (p : Char → Bool) (cs : List Char) :
    cs.take (cs.takeWhile p).length = cs.takeWhile p :=
  (List.prefix_iff_eq_take.mp (List.takeWhile_prefix p)).symm

/-- The first piece of a text is a spelling, unless none begins there. -/
lemma spells_of_munch (h : munch c cs = (some kind, k)) :
    Spells (c :: cs.take k) kind ∨
      (kind = .unknown ∧ k = 0 ∧ ∀ w kind', w <+: c :: cs → ¬ Spells w kind') := by
  obtain ⟨-, ⟨hstart, hword, rfl⟩ | ⟨hstart, hc, hkind, rfl⟩ | ⟨hstart, hc, spelling, hfind, rfl⟩ |
    ⟨hstart, hc, hfind, hkind, rfl⟩⟩ := munch_eq_some_iff.mp h
  · left
    rw [take_length_takeWhile, spells_iff_of_startsName hstart]
    exact ⟨fun d hd => List.mem_takeWhile_imp hd, hword⟩
  · left
    rw [spells_iff_of_isDecimal hstart hc]
    exact ⟨isNumber_take hc cs, hkind⟩
  · left
    have hsign := List.mem_of_find?_eq_some hfind
    have hfound := List.find?_some hfind
    have hinit : spelling <+: c :: cs := List.isPrefixOf_iff_prefix.mp hfound
    obtain ⟨d, piece, rfl⟩ := List.exists_cons_of_ne_nil (operators_ne_nil _ hsign)
    obtain ⟨rfl, hpiece⟩ := List.cons_prefix_cons.mp hinit
    rw [List.length_cons, Nat.add_sub_cancel, ← List.prefix_iff_eq_take.mp hpiece]
    exact .sign hsign
  · right
    refine ⟨hkind.symm, rfl, ?_⟩
    intro w kind' hinit hw
    obtain ⟨v, rfl, -⟩ := (List.prefix_cons_iff.mp hinit).resolve_left hw.ne_nil
    rw [spells_iff_mem_operators hstart hc] at hw
    exact List.find?_eq_none.mp hfind _ hw (List.isPrefixOf_iff_prefix.mpr hinit)

/-- No longer spelling stands at the front of a text than its first piece. -/
lemma length_le_of_munch (h : munch c cs = (some kind, k)) (hw : Spells w kind')
    (hinit : w <+: c :: cs) : w.length ≤ k + 1 := by
  -- a spelling that stands here begins with the same character
  obtain ⟨v, rfl, hv⟩ := (List.prefix_cons_iff.mp hinit).resolve_left hw.ne_nil
  obtain ⟨-, ⟨hstart, -, rfl⟩ | ⟨hstart, hc, -, rfl⟩ | ⟨hstart, hc, spelling, hfind, rfl⟩ |
    ⟨hstart, hc, hfind, -, rfl⟩⟩ := munch_eq_some_iff.mp h
  · rw [spells_iff_of_startsName hstart] at hw
    exact Nat.succ_le_succ (length_le_takeWhile hw.1 hv)
  · rw [spells_iff_of_isDecimal hstart hc] at hw
    exact Nat.succ_le_succ (length_le_numberLength hw.1 hv)
  · rw [spells_iff_mem_operators hstart hc] at hw
    have := length_le_of_find? hfind hw hinit
    omega
  · rw [spells_iff_mem_operators hstart hc] at hw
    have hnot := List.find?_eq_none.mp hfind _ hw
    exact absurd (List.isPrefixOf_iff_prefix.mpr hinit) hnot

/-! ### Tokens at their places -/

/-- A token at its place in a text: the longest spelling that stands there, with its kind, or
a single character at which no spelling begins. -/
structure IsLongest (text : List Char) (t : Token) : Prop where
  /-- The lexeme stands at the place of the token. -/
  stands : t.lexeme.toList <+: text.drop t.start.offset
  /-- Nothing longer that stands there is a spelling. -/
  longest : ∀ w, w <+: text.drop t.start.offset → t.length < w.length → ∀ kind, ¬ Spells w kind
  /-- The kind is that of the lexeme. -/
  spells : t.kind ≠ .unknown → Spells t.lexeme.toList t.kind
  /-- A token is unknown exactly if nothing that stands there is a spelling. -/
  unknown : t.kind = .unknown ↔ ∀ w, w ≠ [] → w <+: text.drop t.start.offset →
    ∀ kind, ¬ Spells w kind
  /-- It is a single character then. -/
  single : t.kind = .unknown → t.length = 1

namespace IsLongest

variable {text : List Char} {t u : Token}

lemma length_pos (h : t.IsLongest text) : 0 < t.length := by
  by_cases hkind : t.kind = .unknown
  · rw [h.single hkind]
    exact Nat.one_pos
  · rw [length, ← String.length_toList]
    exact List.length_pos_iff.mpr (h.spells hkind).ne_nil

/-- Of two tokens at the same place neither is longer. -/
lemma length_le (ht : t.IsLongest text) (hu : u.IsLongest text) (h : t.start = u.start) :
    u.length ≤ t.length := by
  by_contra hlt
  have hstands := hu.stands
  rw [← h] at hstands
  by_cases hkind : u.kind = .unknown
  · have := ht.length_pos
    have := hu.single hkind
    omega
  · refine ht.longest _ hstands ?_ _ (hu.spells hkind)
    rw [String.length_toList]
    exact Nat.lt_of_not_le hlt

/-- There is one token at each place. -/
lemma eq (ht : t.IsLongest text) (hu : u.IsLongest text) (h : t.start = u.start) : t = u := by
  have hunknown : t.kind = .unknown ↔ u.kind = .unknown := by
    rw [ht.unknown, hu.unknown, h]
  have hlength : t.length = u.length := le_antisymm (hu.length_le ht h.symm) (ht.length_le hu h)
  have hlexeme : t.lexeme = u.lexeme := by
    have hstands := hu.stands
    rw [← h] at hstands
    rw [length, length, ← String.length_toList, ← String.length_toList] at hlength
    have hinit := List.prefix_of_prefix_length_le ht.stands hstands hlength.le
    exact String.toList_inj.mp (hinit.eq_of_length hlength)
  have hkind : t.kind = u.kind := by
    by_cases hk : t.kind = .unknown
    · rw [hk, hunknown.mp hk]
    · have hspells := hu.spells (mt hunknown.mpr hk)
      rw [← hlexeme] at hspells
      exact (ht.spells hk).kind_eq hspells
  obtain ⟨kind, lexeme, start⟩ := t
  obtain ⟨kind', lexeme', start'⟩ := u
  dsimp only at hkind hlexeme h
  rw [hkind, hlexeme, h]

end IsLongest

/-- The tokens of a text are the longest spellings at their places. -/
lemma isLongest_of_mem {text : String} {t : Token} (h : t ∈ (Source.ofText text).tokens) :
    t.IsLongest text.toList := by
  rw [Source.tokens_ofText] at h
  obtain ⟨before, c, ds, k, htext, hstart, hm, hlexeme⟩ := exists_munch_of_mem h
  have hdrop : text.toList.drop t.start.offset = c :: ds := by
    rw [htext, hstart, Position.advance_start]
    exact List.drop_left
  have hlist : t.lexeme.toList = c :: ds.take k := by rw [hlexeme, String.toList_ofList]
  have hstands : t.lexeme.toList <+: c :: ds := by
    rw [hlist, List.prefix_cons_inj]
    exact List.take_prefix k ds
  have hlength : t.length = k + 1 := by
    have hle : k ≤ ds.length := by
      have := munch_le c ds
      rwa [hm] at this
    rw [length, ← String.length_toList, hlist, List.length_cons, List.length_take_of_le hle]
  have hcases := spells_of_munch hm
  rw [← hlist] at hcases
  refine { stands := ?_, longest := ?_, spells := ?_, unknown := ?_, single := ?_ }
  · rwa [hdrop]
  · rw [hdrop, hlength]
    intro w hinit hlt kind hw
    have := length_le_of_munch hm hw hinit
    omega
  · intro hkind
    exact hcases.resolve_right fun hnone => hkind hnone.1
  · rw [hdrop]
    constructor
    · intro hkind w _ hinit kind
      exact (hcases.resolve_left fun hw => hw.kind_ne hkind).2.2 w kind hinit
    · intro hnone
      refine (hcases.resolve_left fun hw => ?_).1
      exact hnone _ hw.ne_nil hstands _ hw
  · intro hkind
    rw [hlength, (hcases.resolve_left fun hw => hw.kind_ne hkind).2.1]

end Token

/-! ### Lists of tokens -/

namespace Source

/-- The tokens of a text by their longest spellings: every token is the longest at its place,
which is counted from the text in front; the tokens follow each other without overlapping; and
white space is between them, and only there. -/
structure Munches (text : List Char) (tokens : List Token) (eof : Token) : Prop where
  longest : ∀ t ∈ tokens, t.IsLongest text
  place : ∀ t ∈ tokens, t.start = Position.behind (text.take t.start.offset)
  apart : tokens.Pairwise fun t u => t.start.offset + t.length ≤ u.start.offset
  outside : ∀ i c, text[i]? = some c →
    (∀ t ∈ tokens, i < t.start.offset ∨ t.start.offset + t.length ≤ i) → isBlank c = true
  inside : ∀ t ∈ tokens, ∀ c ∈ t.lexeme.toList, isBlank c = false
  stop : eof = ⟨.eof, "", Position.behind text⟩

namespace Munches

variable {text : List Char} {ts us : List Token} {t u eof eof' : Token}

/-- Different tokens of a list do not overlap. -/
lemma apart_of_ne (h : Munches text ts eof) (ht : t ∈ ts) (hu : u ∈ ts) (hne : t ≠ u) :
    t.start.offset + t.length ≤ u.start.offset ∨ u.start.offset + u.length ≤ t.start.offset := by
  obtain ⟨before, after, rfl⟩ := List.append_of_mem ht
  have hapart := h.apart
  rw [List.pairwise_append, List.pairwise_cons] at hapart
  rw [List.mem_append, List.mem_cons] at hu
  rcases hu with hu | rfl | hu
  · exact .inr (hapart.2.2 u hu t List.mem_cons_self)
  · exact absurd rfl hne
  · exact .inl (hapart.2.1.1 u hu)

/-- Tokens of a list at the same offset stand at the same place. -/
lemma start_eq (hts : Munches text ts eof) (hus : Munches text us eof') (ht : t ∈ ts) (hu : u ∈ us)
    (h : t.start.offset = u.start.offset) : t.start = u.start := by
  rw [hts.place t ht, hus.place u hu, h]

/-- The first character of a token is in another list's token too, since it is no white
space. -/
lemma exists_cover (hts : Munches text ts eof) (hus : Munches text us eof') (ht : t ∈ ts) :
    ∃ u ∈ us, u.start.offset ≤ t.start.offset ∧ t.start.offset < u.start.offset + u.length := by
  by_contra hnone
  obtain ⟨rest, hrest⟩ := (hts.longest t ht).stands
  have hpos := (hts.longest t ht).length_pos
  rw [Token.length, ← String.length_toList] at hpos
  obtain ⟨c, cs, hlist⟩ := List.exists_cons_of_length_pos hpos
  have hget : text[t.start.offset]? = some c := by
    rw [← List.head?_drop, ← hrest, hlist]
    rfl
  have hblank : isBlank c = true := by
    refine hus.outside _ c hget fun u hu => ?_
    have hapart : ¬ (u.start.offset ≤ t.start.offset ∧
        t.start.offset < u.start.offset + u.length) := fun h => hnone ⟨u, hu, h⟩
    omega
  have hinside := hts.inside t ht c (by rw [hlist]; exact List.mem_cons_self)
  rw [hblank] at hinside
  cases hinside

/-- By induction on the offset, two lists of a text have the same tokens: what covers the
first character of a token in the other list starts no earlier, or it would be in both lists
and overlap the token. -/
lemma mem_iff (hts : Munches text ts eof) (hus : Munches text us eof') : t ∈ ts ↔ t ∈ us := by
  induction ho : t.start.offset using Nat.strong_induction_on generalizing t with
  | _ o ih =>
    have hstep : ∀ {ts us : List Token} {eof eof' : Token}, Munches text ts eof →
        Munches text us eof' →
        (∀ {u : Token}, u.start.offset < o → u ∈ us → u ∈ ts) → t ∈ ts → t ∈ us := by
      intro ts us eof eof' hts hus hearlier ht
      obtain ⟨u, hu, hle, hlt⟩ := hts.exists_cover hus ht
      rcases Nat.lt_or_eq_of_le hle with hbefore | hsame
      · have hne : u ≠ t := by
          rintro rfl
          omega
        have hmem := hearlier (ho ▸ hbefore) hu
        have hpos := (hts.longest t ht).length_pos
        rcases hts.apart_of_ne hmem ht hne with h | h <;> omega
      · have hstart := hts.start_eq hus ht hu hsame.symm
        rwa [(hts.longest t ht).eq (hus.longest u hu) hstart]
    constructor
    · exact hstep hts hus fun hlt hu => (ih _ hlt rfl).mpr hu
    · exact hstep hus hts fun hlt hu => (ih _ hlt rfl).mp hu

/-- There is only one such list. -/
lemma eq (hts : Munches text ts eof) (hus : Munches text us eof') : ts ++ [eof] = us ++ [eof'] := by
  have hincreasing : ∀ {ts : List Token} {eof : Token}, Munches text ts eof →
      ts.Pairwise fun t u => t.start.offset < u.start.offset := by
    intro ts eof h
    refine h.apart.imp_of_mem fun {t u} ht _ hle => ?_
    have := (h.longest t ht).length_pos
    omega
  have hnodup : ∀ {ts : List Token} {eof : Token}, Munches text ts eof → ts.Nodup := by
    intro ts eof h
    refine (hincreasing h).imp fun {t u} hlt heq => ?_
    rw [heq] at hlt
    exact lt_irrefl _ hlt
  have hperm : ts.Perm us :=
    (List.perm_ext_iff_of_nodup (hnodup hts) (hnodup hus)).mpr fun t => hts.mem_iff hus
  have hsame : ts = us := by
    refine hperm.eq_of_pairwise (fun t u _ _ htu hut => ?_) (hincreasing hts) (hincreasing hus)
    exact absurd htu (lt_asymm hut)
  rw [hsame, hts.stop, hus.stop]

end Munches

/-- The tokens of a text are its longest spellings. -/
lemma munches_ofText (text : String) :
    Munches text.toList (ofText text).tokens (ofText text).eof := by
  have htiles := tiles_ofText text
  refine { longest := fun t => Token.isLongest_of_mem, place := ?_, apart := htiles.pairwise,
           outside := ?_, inside := fun t ht => (htiles.isPiece ht).not_isBlank, stop := ?_ }
  · intro t ht
    exact start_eq (List.mem_append_left _ ht)
  · intro i c hi houtside
    refine htiles.isBlank_of_getElem? hi fun t ht => ?_
    simpa [Position.start] using houtside t ht
  · rw [← start_eof]
    rfl

/-- **The tokens of a text are its longest spellings.**  A list of tokens is that of a text if
and only if every token in it is the longest name, number or sign that stands at its place, with
the kind of that spelling, or a single character at which none of them begins, and only white
space is left out. -/
theorem munches_iff (text : String) (tokens : List Token) (eof : Token) :
    (ofText text).toList = tokens ++ [eof] ↔ Munches text.toList tokens eof := by
  constructor
  · intro h
    obtain ⟨htokens, heof⟩ := List.append_inj' h rfl
    rw [← htokens, ← List.singleton_inj.mp heof]
    exact munches_ofText text
  · intro h
    exact (munches_ofText text).eq h

-- the beginning of a sign is no sign, and a point without digits behind it ends a number
example : (ofText "p<-1.v").tokens.map (fun t => (t.kind, t.lexeme)) =
    [(.ident, "p"), (.unknown, "<"), (.unknown, "-"), (.number, "1"), (.unknown, "."),
      (.ident, "v")] := by
  decide +kernel

end Source

end Propositional
