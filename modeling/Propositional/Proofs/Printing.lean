/-
The text of a proposition read again.

* `Token.scanFrom_sign`: a sign that no longer operator begins with is a token, whatever
  follows it.
* `Derivation.exists_scanFrom`, `Derivation.Items.exists_scanFrom`: the text of a derived
  formula, and that of derived propositions with commas between them, is cut into tokens
  from which the same is derived.
* `Proposition.parse_text`: a proposition is read back from its text, and a request has
  the same table, or the same fault of naming, when it is written out by its
  propositions.
-/
import Propositional.Proofs.Congruence
import Propositional.Proofs.Verdict

namespace Propositional

open Text

/-! ### Signs -/

namespace Token

variable {c : Char} {kind : Kind} {rest : List Char}

/-- A character that is an operator, before all others that begin with it. -/
def IsSign (c : Char) (kind : Kind) : Prop :=
  isBlank c = false ∧ startsName c = false ∧ isDecimal c = false ∧
    operators.find? (fun op => op.1.head? = some c) = some ([c], kind)

instance (c : Char) (kind : Kind) : Decidable (IsSign c kind) :=
  inferInstanceAs (Decidable (_ ∧ _))

/-- A sign is found before anything. -/
lemma munch_sign (h : IsSign c kind) (cs : List Char) : munch c cs = (some kind, 0) := by
  obtain ⟨hblank, hstart, hdecimal, hfirst⟩ := h
  obtain ⟨-, before, after, hoperators, hbefore⟩ := List.find?_eq_some_iff_append.mp hfirst
  refine munch_eq_some_iff.mpr ⟨hblank, .inr (.inr (.inl ⟨hstart, hdecimal, [c], ?_, rfl⟩))⟩
  refine List.find?_eq_some_iff_append.mpr ⟨by simp, before, after, hoperators, fun op hop => ?_⟩
  have hhead := hbefore op hop
  cases hspelling : op.1 with
  | nil =>
      have hmem : op ∈ operators := by
        rw [hoperators]
        exact List.mem_append_left _ hop
      exact absurd hspelling (operators_ne_nil op hmem)
  | cons a l =>
      have ha : a ≠ c := by simpa [hspelling] using hhead
      simp [List.isPrefixOf, ha]

/-- A sign is a token of its own. -/
lemma scanFrom_sign (h : IsSign c kind) (p : Position) :
    scanFrom p 0 (c :: rest) = ⟨kind, String.ofList [c], p⟩ :: scanFrom (p.next c) 0 rest := by
  rw [scanFrom, munch_sign h]
  rfl

/-- A piece is found between two blanks. -/
lemma IsPiece.scanFrom_spaced {n : String} (h : IsPiece kind n) (p : Position) :
    ∃ q t, Token.scanFrom p 0 (' ' :: (n.toList ++ ' ' :: rest)) =
        t :: Token.scanFrom q 0 rest ∧ t.kind = kind := by
  have hblank : isBlank ' ' = true := by decide +kernel
  have hbreaks : Breaks (' ' :: rest) := breaks_cons (by decide +kernel)
  refine ⟨((p.next ' ').advance n.toList).next ' ', ⟨kind, n, p.next ' '⟩, ?_, rfl⟩
  rw [scanFrom_blank hblank, h.scanFrom _ hbreaks, scanFrom_blank hblank]

end Token

open Token (scanFrom IsPiece)

lemma Bracket.scanFrom_opener (b : Bracket) (p : Position) (rest : List Char) :
    ∃ q t, scanFrom p 0 (b.opener.toList ++ rest) = t :: scanFrom q 0 rest ∧
      t.kind = .opening b := by
  cases b <;> exact ⟨_, _, Token.scanFrom_sign (by decide +kernel) p, rfl⟩

lemma Bracket.scanFrom_closer (b : Bracket) (p : Position) (rest : List Char) :
    ∃ q t, scanFrom p 0 (b.closer.toList ++ rest) = t :: scanFrom q 0 rest ∧
      t.kind = .closing b := by
  cases b <;> exact ⟨_, _, Token.scanFrom_sign (by decide +kernel) p, rfl⟩

lemma Bracket.breaks_closer (b : Bracket) (rest : List Char) :
    Breaks (b.closer.toList ++ rest) := by
  cases b <;> exact breaks_cons (by decide +kernel)

/-- The text of a connective is one token between blanks. -/
lemma Connective.exists_text (c : Connective) :
    ∃ n, c.text.toList = ' ' :: (n.toList ++ [' ']) ∧ IsPiece (.binary c) n := by
  cases c with
  | and => exact ⟨"∧", rfl, _, _, rfl, by decide +kernel⟩
  | or => exact ⟨"∨", rfl, _, _, rfl, by decide +kernel⟩
  | xor => exact ⟨"⊻", rfl, _, _, rfl, by decide +kernel⟩
  | implies => exact ⟨"->", rfl, _, _, rfl, by decide +kernel⟩
  | iff => exact ⟨"<->", rfl, _, _, rfl, by decide +kernel⟩

/-! ### Formulas -/

namespace Derivation

variable {numeric : Bool} {n : ℕ}

/-- The text of a formula of pieces is cut into tokens from which the same formula is
derived. -/
lemma exists_scanFrom (d : Derivation numeric n) (hd : ∀ t ∈ d.tokens, IsPiece t.kind t.lexeme)
    (p : Position) {rest : List Char} (hrest : Breaks rest) :
    ∃ e : Derivation numeric n, ∃ q,
      scanFrom p 0 (d.formula.text.toList ++ rest) = e.tokens ++ scanFrom q 0 rest ∧
        e.formula = d.formula := by
  induction d generalizing p rest with
  | atom t ht =>
      have hpiece := hd t (List.mem_singleton_self t)
      exact ⟨.atom ⟨t.kind, t.lexeme, p⟩ ht, _, hpiece.scanFrom p hrest, rfl⟩
  | group b o c ho hc d ih =>
      rw [tokens, List.cons_append, List.forall_mem_cons, List.forall_mem_append] at hd
      obtain ⟨q, o', hopener, ho'⟩ :=
        b.scanFrom_opener p (d.formula.text.toList ++ (b.closer.toList ++ rest))
      obtain ⟨e, q', hinner, he⟩ := ih hd.2.1 q (b.breaks_closer rest)
      obtain ⟨q'', c', hcloser, hc'⟩ := b.scanFrom_closer q' rest
      refine ⟨.group b o' c' ho' hc' e, q'', ?_, congrArg (Formula.group b) he⟩
      have htext : (Derivation.group b o c ho hc d).formula.text.toList ++ rest =
          b.opener.toList ++ (d.formula.text.toList ++ (b.closer.toList ++ rest)) := by
        simp [formula, tree, Tree.formula, Formula.text]
      rw [htext, hopener, hinner, hcloser, tokens]
      simp
  | neg t ht d ih =>
      rw [tokens, List.forall_mem_cons] at hd
      obtain ⟨e, q, hoperand, he⟩ := ih hd.2 (p.next '¬') hrest
      have hsign : Token.IsSign '¬' .negation := by decide +kernel
      refine ⟨.neg ⟨.negation, String.ofList ['¬'], p⟩ rfl e, q, ?_, congrArg Formula.neg he⟩
      have htext : (Derivation.neg t ht d).formula.text.toList ++ rest =
          '¬' :: (d.formula.text.toList ++ rest) := by
        simp [formula, tree, Tree.formula, Formula.text]
      rw [htext, Token.scanFrom_sign hsign, hoperand, tokens, List.cons_append]
  | binary c t hc ht l r ihl ihr =>
      rw [tokens, List.forall_mem_append, List.forall_mem_cons] at hd
      obtain ⟨sign, hsign, hpiece⟩ := c.exists_text
      have hbreaks : Breaks (' ' :: (sign.toList ++ ' ' :: (r.formula.text.toList ++ rest))) :=
        breaks_cons (by decide +kernel)
      obtain ⟨e, q, hleft, he⟩ := ihl hd.1 p hbreaks
      obtain ⟨q', u, hu, hkind⟩ := hpiece.scanFrom_spaced q
      obtain ⟨e', q'', hright, he'⟩ := ihr hd.2.2 q' hrest
      refine ⟨.binary c u hc (.inl hkind) e e', q'', ?_, congrArg₂ (Formula.binary c) he he'⟩
      have htext : (Derivation.binary c t hc ht l r).formula.text.toList ++ rest =
          l.formula.text.toList ++
            (' ' :: (sign.toList ++ ' ' :: (r.formula.text.toList ++ rest))) := by
        simp [formula, tree, Tree.formula, Formula.text, hsign]
      rw [htext, hleft, hu, hright]
      exact (List.append_assoc e.tokens (u :: e'.tokens) _).symm
  | next d ih =>
      obtain ⟨e, q, htokens, he⟩ := ih hd p hrest
      exact ⟨e.next, q, htokens, he⟩

/-- What is derived in either mode is derived in numeric mode. -/
lemma exists_numeric (d : Derivation numeric n) :
    ∃ e : Derivation true n, e.tokens = d.tokens ∧ e.tree = d.tree := by
  induction d with
  | atom t ht =>
      have ht' : t.IsAtom true := by
        rcases ht with h | h | h | ⟨h, -, hdigit⟩
        · exact .inl h
        · exact .inr (.inl h)
        · exact .inr (.inr (.inl h))
        · exact .inr (.inr (.inr ⟨h, rfl, hdigit⟩))
      exact ⟨.atom t ht', rfl, rfl⟩
  | group b o c ho hc d ih =>
      obtain ⟨e, ht, hf⟩ := ih
      exact ⟨.group b o c ho hc e, by rw [tokens, tokens, ht], congrArg (Tree.group b) hf⟩
  | neg t ht d ih =>
      obtain ⟨e, htokens, hf⟩ := ih
      exact ⟨.neg t ht e, by rw [tokens, tokens, htokens], congrArg Tree.neg hf⟩
  | binary c t hc ht l r ihl ihr =>
      obtain ⟨e, he, hl⟩ := ihl
      obtain ⟨e', he', hr⟩ := ihr
      exact ⟨.binary c t hc ht e e', congrArg₂ (· ++ t :: ·) he he',
        congrArg₂ (Tree.binary c) hl hr⟩
  | next d ih =>
      obtain ⟨e, ht, hf⟩ := ih
      exact ⟨e.next, ht, hf⟩

end Derivation

/-! ### Propositions -/

/-- The same formula under the same name, wherever they stand. -/
structure Proposition.Same (p q : Proposition) : Prop where
  name : p.name = q.name
  formula : p.formula = q.formula

lemma Proposition.Same.text_eq {p q : Proposition} (h : p.Same q) : p.text = q.text := by
  rw [text, text, h.name, h.formula]

/-- Trees with the same formula are related where all tokens are. -/
lemma Tree.rel_of_formula_eq {f g : Tree} (h : f.formula = g.formula) :
    Tree.Rel (fun _ _ => True) f g := by
  induction f generalizing g with
  | atom t =>
      cases g with
      | atom u => exact .atom ⟨trivial, Formula.atom.inj h⟩
      | _ => cases h
  | neg f ih =>
      cases g with
      | neg g => exact .neg (ih (Formula.neg.inj h))
      | _ => cases h
  | binary c l r ihl ihr =>
      cases g with
      | binary c' l' r' =>
          obtain ⟨rfl, hl, hr⟩ := Formula.binary.inj h
          exact .binary c (ihl hl) (ihr hr)
      | _ => cases h
  | group b f ih =>
      cases g with
      | group b' g =>
          obtain ⟨rfl, hg⟩ := Formula.group.inj h
          exact .group b (ih hg)
      | _ => cases h

lemma Proposition.Same.rel {p q : Proposition} (h : p.Same q) :
    Proposition.Rel (fun _ _ => True) p q := by
  obtain ⟨label, f⟩ := p
  obtain ⟨label', g⟩ := q
  obtain ⟨hname, hformula⟩ := h
  refine ⟨?_, Tree.rel_of_formula_eq hformula⟩
  cases label with
  | none =>
      cases label' with
      | none => exact .none
      | some u => cases hname
  | some t =>
      cases label' with
      | none => cases hname
      | some u => exact .some ⟨trivial, Option.some.inj hname⟩

namespace Derivation

variable {numeric : Bool}

/-- The text of a proposition of pieces is cut into tokens from which the same
proposition is derived. -/
lemma Item.exists_scanFrom (i : Item numeric) (hi : ∀ t ∈ i.tokens, IsPiece t.kind t.lexeme)
    (p : Position) {rest : List Char} (hrest : Breaks rest) :
    ∃ j : Item numeric, ∃ q,
      scanFrom p 0 (i.proposition.text.toList ++ rest) = j.tokens ++ scanFrom q 0 rest ∧
        i.proposition.Same j.proposition := by
  cases i with
  | plain d =>
      obtain ⟨e, q, hscan, he⟩ := d.exists_scanFrom hi p hrest
      exact ⟨.plain e, q, hscan, rfl, he.symm⟩
  | named t e ht he d =>
      rw [tokens, List.forall_mem_cons, List.forall_mem_cons] at hi
      have hassign : IsPiece .assign "=" := ⟨_, _, rfl, by decide +kernel⟩
      have hbreaks : Breaks (' ' :: ("=".toList ++ ' ' :: (d.formula.text.toList ++ rest))) :=
        breaks_cons (by decide +kernel)
      obtain ⟨q, e', he', hkind⟩ := hassign.scanFrom_spaced (p.advance t.lexeme.toList)
      obtain ⟨d', q', hscan, hd'⟩ := d.exists_scanFrom hi.2.2 q hrest
      refine ⟨.named ⟨t.kind, t.lexeme, p⟩ e' ht hkind d', q', ?_, rfl, hd'.symm⟩
      have htext : (Item.named t e ht he d).proposition.text.toList ++ rest =
          t.lexeme.toList ++ (' ' :: ("=".toList ++ ' ' :: (d.formula.text.toList ++ rest))) := by
        simp [proposition, Proposition.text, Proposition.name, Proposition.formula, formula]
      rw [htext, hi.1.scanFrom p hbreaks, he', hscan]
      rfl

/-- So is the text of propositions with commas between them. -/
lemma Items.exists_scanFrom (is : Items numeric)
    (his : ∀ t ∈ is.tokens, IsPiece t.kind t.lexeme) (p : Position) {rest : List Char}
    (hrest : Breaks rest) :
    ∃ js : Items numeric, ∃ q,
      scanFrom p 0 ((", ".intercalate (is.propositions.map Proposition.text)).toList ++ rest) =
          js.tokens ++ scanFrom q 0 rest ∧
        List.Forall₂ Proposition.Same is.propositions js.propositions := by
  induction is generalizing p rest with
  | single i =>
      obtain ⟨j, q, hscan, hj⟩ := i.exists_scanFrom his p hrest
      refine ⟨.single j, q, ?_, .cons hj .nil⟩
      rw [propositions, List.map_singleton, String.intercalate_singleton]
      exact hscan
  | more is comma hc i ih =>
      rw [tokens, List.forall_mem_append, List.forall_mem_cons] at his
      have hblank : isBlank ' ' = true := by decide +kernel
      have hcomma : Token.IsSign ',' .comma := by decide +kernel
      have hbreaks : Breaks (',' :: ' ' :: (i.proposition.text.toList ++ rest)) :=
        breaks_cons (by decide +kernel)
      obtain ⟨js, q, hinit, hjs⟩ := ih his.1 p hbreaks
      obtain ⟨j, q', hlast, hj⟩ := i.exists_scanFrom his.2.2 ((q.next ',').next ' ') hrest
      refine ⟨.more js ⟨.comma, String.ofList [','], q⟩ rfl j, q', ?_,
        List.rel_append hjs (.cons hj .nil)⟩
      have hne : is.propositions.map Proposition.text ≠ [] :=
        fun h => is.propositions_ne_nil (List.map_eq_nil_iff.mp h)
      have htext :
          (", ".intercalate
              ((Items.more is comma hc i).propositions.map Proposition.text)).toList ++ rest =
            (", ".intercalate (is.propositions.map Proposition.text)).toList ++
              (',' :: ' ' :: (i.proposition.text.toList ++ rest)) := by
        rw [propositions, List.map_append, List.map_singleton,
          String.intercalate_append_of_ne_nil hne (by simp), String.intercalate_singleton]
        simp
      rw [htext, hinit, Token.scanFrom_sign hcomma, Token.scanFrom_blank hblank, hlast]
      exact (List.append_assoc js.tokens (_ :: j.tokens) _).symm

/-- Derived propositions are read back from their texts with commas between them. -/
lemma Items.parse_intercalate (is : Items numeric)
    (his : ∀ t ∈ is.tokens, IsPiece t.kind t.lexeme) :
    ∃ qs, Proposition.parse numeric
        (", ".intercalate (is.propositions.map Proposition.text)) = .ok qs ∧
      List.Forall₂ Proposition.Same is.propositions qs := by
  obtain ⟨js, q, hscan, hjs⟩ := is.exists_scanFrom his .start breaks_nil
  refine ⟨js.propositions, ?_, hjs⟩
  refine (Reading.result_eq_ok_iff _ _).mpr ⟨js, ?_, rfl⟩
  rw [List.append_nil, scanFrom, List.append_nil, ← Source.tokens_ofText] at hscan
  exact hscan.symm

/-- A derived proposition is read back from its text. -/
lemma Item.exists_parse (i : Item numeric) (hi : ∀ t ∈ i.tokens, IsPiece t.kind t.lexeme) :
    ∃ q, Proposition.parse numeric i.proposition.text = .ok [q] ∧ i.proposition.Same q := by
  obtain ⟨qs, hqs, hsame⟩ := (Items.single i).parse_intercalate hi
  rw [Items.propositions, List.map_singleton, String.intercalate_singleton] at hqs
  obtain ⟨q, rest, hq, hrest, rfl⟩ := List.forall₂_cons_left_iff.mp hsame
  rw [List.forall₂_nil_left_iff.mp hrest] at hqs
  exact ⟨q, hqs, hq⟩

lemma Item.exists_numeric (i : Item numeric) :
    ∃ j : Item true, j.tokens = i.tokens ∧ j.proposition = i.proposition := by
  cases i with
  | plain d =>
      obtain ⟨e, ht, hf⟩ := d.exists_numeric
      exact ⟨.plain e, ht, by rw [proposition, proposition, hf]⟩
  | named t e ht he d =>
      obtain ⟨e', ht', hf⟩ := d.exists_numeric
      exact ⟨.named t e ht he e', congrArg (t :: e :: ·) ht', by rw [proposition, proposition, hf]⟩

/-- Propositions of pieces with the same text are the same. -/
lemma Item.same_of_text_eq {numeric' : Bool} {i : Item numeric} {j : Item numeric'}
    (hi : ∀ t ∈ i.tokens, IsPiece t.kind t.lexeme) (hj : ∀ t ∈ j.tokens, IsPiece t.kind t.lexeme)
    (h : i.proposition.text = j.proposition.text) : i.proposition.Same j.proposition := by
  obtain ⟨i', hi', hip⟩ := i.exists_numeric
  obtain ⟨j', hj', hjp⟩ := j.exists_numeric
  rw [← hi'] at hi
  rw [← hj'] at hj
  obtain ⟨p, hp, hsame⟩ := i'.exists_parse hi
  obtain ⟨q, hq, hsame'⟩ := j'.exists_parse hj
  rw [hip] at hp hsame
  rw [hjp, ← h, hp] at hq
  obtain rfl : p = q := List.singleton_inj.mp (Except.ok.inj hq)
  rw [hjp] at hsame'
  exact ⟨hsame.name.trans hsame'.name.symm, hsame.formula.trans hsame'.formula.symm⟩

end Derivation

namespace Proposition

variable {numeric : Bool} {text : String} {ps : List Proposition}

/-- The propositions of a text are derived from its tokens, which are pieces. -/
lemma exists_items (h : parse numeric text = .ok ps) :
    ∃ is : Derivation.Items numeric, is.propositions = ps ∧
      ∀ t ∈ is.tokens, IsPiece t.kind t.lexeme := by
  obtain ⟨is, htokens, hps⟩ := (Reading.result_eq_ok_iff _ _).mp h
  refine ⟨is, hps, fun t ht => ?_⟩
  rw [htokens] at ht
  exact Token.isPiece_of_mem ht

lemma exists_item (h : parse numeric text = .ok ps) {p : Proposition} (hp : p ∈ ps) :
    ∃ i : Derivation.Item numeric, i.proposition = p ∧
      ∀ t ∈ i.tokens, IsPiece t.kind t.lexeme := by
  obtain ⟨is, rfl, hpieces⟩ := exists_items h
  obtain ⟨i, hi, htokens⟩ := is.exists_item hp
  exact ⟨i, hi, fun t ht => hpieces t (htokens t ht)⟩

lemma exists_derivation (h : parse numeric text = .ok ps) {p : Proposition} (hp : p ∈ ps) :
    ∃ d : Derivation numeric 0, d.formula = p.formula ∧
      ∀ t ∈ d.tokens, IsPiece t.kind t.lexeme := by
  obtain ⟨d | ⟨u, e, hu, he, d⟩, rfl, hpieces⟩ := exists_item h hp
  · exact ⟨d, rfl, hpieces⟩
  · refine ⟨d, rfl, fun t ht => hpieces t ?_⟩
    exact List.mem_cons_of_mem _ (List.mem_cons_of_mem _ ht)

/-- Requests of the same propositions have the same table, or both have a fault of naming
with the same cause. -/
lemma table_of_same {text' : String} {qs : List Proposition} (h : parse numeric text = .ok ps)
    (h' : parse numeric text' = .ok qs) (hsame : List.Forall₂ Same ps qs) (ordered : Bool) :
    (∃ t, Table.ofText numeric ordered text = .ok t ∧
      Table.ofText numeric ordered text' = .ok t) ∨
    ∃ r r', Table.ofText numeric ordered text = .error (.rejected r) ∧
      Table.ofText numeric ordered text' = .error (.rejected r') ∧ r.cause = r'.cause ∧
      ∃ n, r.cause = .alreadyDefined n ∨ r.cause = .alreadySimple n := by
  have hrel : Reading.Rel (fun _ _ => True) (Reading.ofSource numeric (.ofText text))
      (Reading.ofSource numeric (.ofText text')) := by
    rw [Reading.ofSource_eq h, Reading.ofSource_eq h']
    exact ⟨hsame.imp fun _ _ => Same.rel, .none, .none⟩
  rcases Table.ofText_rel hrel ordered with htable | ⟨r, r', hr, hr', hcause⟩
  · exact .inl htable
  · refine .inr ⟨r, r', hr, hr', hcause.cause, ?_⟩
    -- the text is read to its end, so that only a clash can reject it
    rcases Request.ofText_of_parse h with ⟨r₀, hclash, hrequest⟩ | ⟨s, -, hrequest⟩
    · rw [Table.ofText_of_error hrequest] at hr
      cases hr
      obtain ⟨i, p, t, -, -, -, -, rfl⟩ := hclash
      refine ⟨t.lexeme, ?_⟩
      rw [Rejection.ofName]
      dsimp only
      split
      · exact .inl rfl
      · exact .inr rfl
    · obtain ⟨-, -, e, he, -⟩ := Request.table_of_ok hrequest ordered
      rw [he] at hr
      cases hr

/-- **Texts of propositions are read back.** In either mode the text of every proposition
that is read gives that proposition again, up to the places of its tokens, so that
propositions with the same text have the same name and the same tree.  A request has the
same table as the texts of its propositions with commas between them, or it has a fault
of naming and these have one with the same cause. -/
theorem parse_text (h : parse numeric text = .ok ps) :
    (∀ p ∈ ps, ∃ q, parse numeric p.text = .ok [q] ∧ p.Same q) ∧
    (∀ numeric' text' ps', parse numeric' text' = .ok ps' →
      ∀ p ∈ ps, ∀ q ∈ ps', p.text = q.text → p.Same q) ∧
    ∀ ordered,
      (∃ t, Table.ofText numeric ordered text = .ok t ∧
        Table.ofText numeric ordered (", ".intercalate (ps.map Proposition.text)) = .ok t) ∨
      ∃ r r', Table.ofText numeric ordered text = .error (.rejected r) ∧
        Table.ofText numeric ordered (", ".intercalate (ps.map Proposition.text)) =
          .error (.rejected r') ∧ r.cause = r'.cause ∧
        ∃ n, r.cause = .alreadyDefined n ∨ r.cause = .alreadySimple n := by
  refine ⟨fun p hp => ?_, fun numeric' text' ps' h' p hp q hq heq => ?_, fun ordered => ?_⟩
  · obtain ⟨i, rfl, hi⟩ := exists_item h hp
    exact i.exists_parse hi
  · obtain ⟨i, rfl, hi⟩ := exists_item h hp
    obtain ⟨j, rfl, hj⟩ := exists_item h' hq
    exact Derivation.Item.same_of_text_eq hi hj heq
  · obtain ⟨is, rfl, hpieces⟩ := exists_items h
    obtain ⟨qs, hqs, hsame⟩ := is.parse_intercalate hpieces
    exact table_of_same h hqs hsame ordered

/-- A name that is the sign of a disjunction elsewhere is read back as a name. -/
theorem parse_text_v :
    ∃ ps, parse false "v v !v,p=[v xor V]" = .ok ps ∧
      (∀ p ∈ ps, ∃ q, parse false p.text = .ok [q] ∧ p.Same q) ∧
      (∀ numeric' text' ps', parse numeric' text' = .ok ps' →
        ∀ p ∈ ps, ∀ q ∈ ps', p.text = q.text → p.Same q) ∧
      ∀ ordered,
        (∃ t, Table.ofText false ordered "v v !v,p=[v xor V]" = .ok t ∧
          Table.ofText false ordered (", ".intercalate (ps.map Proposition.text)) = .ok t) ∨
        ∃ r r', Table.ofText false ordered "v v !v,p=[v xor V]" = .error (.rejected r) ∧
          Table.ofText false ordered (", ".intercalate (ps.map Proposition.text)) =
            .error (.rejected r') ∧ r.cause = r'.cause ∧
          ∃ n, r.cause = .alreadyDefined n ∨ r.cause = .alreadySimple n :=
  have h : parse false "v v !v,p=[v xor V]" =
      .ok [⟨none, .binary .or (.atom ⟨.ident, "v", ⟨1, 1, 0⟩⟩)
            (.neg (.atom ⟨.ident, "v", ⟨1, 6, 5⟩⟩))⟩,
        ⟨some ⟨.ident, "p", ⟨1, 8, 7⟩⟩,
          .group .square (.binary .xor (.atom ⟨.ident, "v", ⟨1, 11, 10⟩⟩)
            (.atom ⟨.ident, "V", ⟨1, 17, 16⟩⟩))⟩] := by decide +kernel
  ⟨_, h, parse_text h⟩

end Proposition

end Propositional
