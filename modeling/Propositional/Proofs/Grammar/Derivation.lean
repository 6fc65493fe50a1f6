/-
The grammar of requests: which sequences of tokens are propositions between
commas, and how they group.

* `Derivation`: the derivations of a formula, by tiers.  The five connectives have
  the tiers `0` to `4`, by `Connective.rank`; negations are tier `5`, atoms and
  bracketed formulas tier `6`.  The left side of a connective is derived at its
  own tier and the right side one tier further, which groups to the left.
* `Derivation.Item`, `Derivation.Items`: the derivations of a proposition, perhaps
  with a name, and of propositions between commas.
* `Derivation.tokens`, `Derivation.tree`: what is derived, as a sequence and as a
  tree; `Derivation.formula` is the formula of the tree.
* `Formula.Grouped`: no operand of a connective or a negation binds less tightly
  than its place allows; `grouped_formula` says so of every derived formula.
* `Tree.symbols`, `Token.Shows`: what a tree shows from left to right, and the
  tokens that show it; `shows_symbols` reads a derivation's tokens off its tree.
* `Derivation.Items.eq_of_eq`: a derivation is determined by its tree and its
  tokens.
-/
import Mathlib.Tactic
import Propositional.Reading

namespace Propositional

/-! ### Tokens as terminals of the grammar -/

/-- The tokens that are a formula on their own: names, the two signs for the
constants and, in numeric mode, the digits `0` and `1`. -/
def Token.IsAtom (numeric : Bool) (t : Token) : Prop :=
  t.kind = .ident ∨ t.kind = .top ∨ t.kind = .bottom ∨
    (t.kind = .number ∧ numeric = true ∧ (t.lexeme = "0" ∨ t.lexeme = "1"))

/-- The tokens that stand for a connective between two formulas: its own
spellings and, for the disjunction, the name `v`. -/
def Token.IsConnective (c : Connective) (t : Token) : Prop :=
  t.kind = .binary c ∨ (c = .or ∧ t.kind = .ident ∧ t.lexeme = "v")

lemma Connective.rank_lt (c : Connective) : c.rank < 5 := by
  cases c <;> decide

/-! ### Derivations -/

/-- A derivation of a formula at a tier. -/
inductive Derivation (numeric : Bool) : ℕ → Type
  | atom (t : Token) (ht : t.IsAtom numeric) : Derivation numeric 6
  | group (b : Bracket) (o c : Token) (ho : o.kind = .opening b) (hc : c.kind = .closing b)
      (d : Derivation numeric 0) : Derivation numeric 6
  | neg (t : Token) (ht : t.kind = .negation) (d : Derivation numeric 5) : Derivation numeric 5
  | binary {n : ℕ} (c : Connective) (t : Token) (hc : c.rank = n) (ht : t.IsConnective c)
      (l : Derivation numeric n) (r : Derivation numeric (n + 1)) : Derivation numeric n
  | next {n : ℕ} (d : Derivation numeric (n + 1)) : Derivation numeric n

variable {numeric : Bool} {n : ℕ}

namespace Derivation

/-- A derivation of a proposition: a formula, perhaps behind a name and the sign
that defines it. -/
inductive Item (numeric : Bool) : Type
  | plain (d : Derivation numeric 0)
  | named (t e : Token) (ht : t.kind = .ident) (he : e.kind = .assign) (d : Derivation numeric 0)

/-- A derivation of one or more propositions with commas between them. -/
inductive Items (numeric : Bool) : Type
  | single (i : Item numeric)
  | more (is : Items numeric) (comma : Token) (hc : comma.kind = .comma) (i : Item numeric)

/-- The tokens of a formula, from left to right. -/
def tokens : {n : ℕ} → Derivation numeric n → List Token
  | _, atom t _ => [t]
  | _, group _ o c _ _ d => o :: d.tokens ++ [c]
  | _, neg t _ d => t :: d.tokens
  | _, binary _ t _ _ l r => l.tokens ++ t :: r.tokens
  | _, next d => d.tokens

/-- The tree of a derivation. -/
def tree : {n : ℕ} → Derivation numeric n → Tree
  | _, atom t _ => .atom t
  | _, group b _ _ _ _ d => .group b d.tree
  | _, neg _ _ d => .neg d.tree
  | _, binary c _ _ _ l r => .binary c l.tree r.tree
  | _, next d => d.tree

/-- The formula of a derivation. -/
def formula (d : Derivation numeric n) : Formula := d.tree.formula

/-- The tokens of a proposition. -/
def Item.tokens : Item numeric → List Token
  | plain d => d.tokens
  | named t e _ _ d => t :: e :: d.tokens

/-- The proposition of a derivation. -/
def Item.proposition : Item numeric → Proposition
  | plain d => ⟨none, d.tree⟩
  | named t _ _ _ d => ⟨some t, d.tree⟩

/-- The tokens of propositions between commas. -/
def Items.tokens : Items numeric → List Token
  | single i => i.tokens
  | more is comma _ i => is.tokens ++ comma :: i.tokens

/-- The propositions of a derivation. -/
def Items.propositions : Items numeric → List Proposition
  | single i => [i.proposition]
  | more is _ _ i => is.propositions ++ [i.proposition]

lemma tier_le (d : Derivation numeric n) : n ≤ 6 := by
  induction d with
  | atom | group | neg => decide
  | binary c t hc ht l r ihl ihr => exact ihl
  | next d ih => omega

lemma exists_of_le {m : ℕ} (d : Derivation numeric n) (h : m ≤ n) :
    ∃ e : Derivation numeric m, e.tokens = d.tokens ∧ e.tree = d.tree := by
  induction h with
  | refl => exact ⟨d, rfl, rfl⟩
  | step h ih => exact ih d.next

end Derivation

/-! ### How formulas group -/

/-- The tier of a formula: that of the connective or negation on top of it. -/
def Formula.tier : Formula → ℕ
  | atom _ => 6
  | neg _ => 5
  | binary c _ _ => c.rank
  | group _ _ => 6

/-- A formula whose operands bind tightly enough without brackets of their own:
under a connective the left one at least as tightly, so that equal connectives
group to the left, and the right one more tightly; under a negation only
negations, atoms and bracketed formulas. -/
def Formula.Grouped : Formula → Prop
  | atom _ => True
  | neg f => 5 ≤ f.tier ∧ f.Grouped
  | binary c l r => c.rank ≤ l.tier ∧ c.rank < r.tier ∧ l.Grouped ∧ r.Grouped
  | group _ f => f.Grouped

namespace Derivation

/-- What is derived at a tier binds at least as tightly. -/
lemma le_tier_formula (d : Derivation numeric n) : n ≤ d.formula.tier := by
  induction d with
  | atom | group | neg => exact le_rfl
  | binary c t hc ht l r ihl ihr => exact hc.ge
  | next d ih => exact (Nat.le_succ _).trans ih

lemma grouped_formula (d : Derivation numeric n) : d.formula.Grouped := by
  induction d with
  | atom => trivial
  | group b o c ho hc d ih => exact ih
  | neg t ht d ih => exact ⟨d.le_tier_formula, ih⟩
  | @binary n c t hc ht l r ihl ihr =>
      have hl : n ≤ l.formula.tier := l.le_tier_formula
      have hr : n < r.formula.tier := r.le_tier_formula
      exact ⟨hc.trans_le hl, hc.trans_lt hr, ihl, ihr⟩
  | next d ih => exact ih

lemma Items.exists_item (is : Items numeric) {p : Proposition} (hp : p ∈ is.propositions) :
    ∃ i : Item numeric, i.proposition = p ∧ ∀ t ∈ i.tokens, t ∈ is.tokens := by
  induction is with
  | single i => exact ⟨i, (List.mem_singleton.mp hp).symm, fun t ht => ht⟩
  | more is comma hc i ih =>
      rcases List.mem_append.mp hp with hp | hp
      · obtain ⟨j, hj, htokens⟩ := ih hp
        exact ⟨j, hj, fun t ht => List.mem_append_left _ (htokens t ht)⟩
      · refine ⟨i, (List.mem_singleton.mp hp).symm, fun t ht => ?_⟩
        exact List.mem_append_right _ (List.mem_cons_of_mem _ ht)

lemma Items.grouped (is : Items numeric) : ∀ p ∈ is.propositions, p.formula.Grouped := by
  intro p hp
  obtain ⟨d | ⟨t, e, ht, he, d⟩, rfl, -⟩ := is.exists_item hp <;> exact d.grouped_formula

end Derivation

/-! ### What a tree shows -/

/-- A piece of a request as its tree has it: connectives without their spelling,
and the tokens of atoms and names. -/
inductive Symbol where
  | atom (t : Token)
  | negation
  | connective (c : Connective)
  | opening (b : Bracket)
  | closing (b : Bracket)
  | name (t : Token)
  | assign
  | comma

/-- The pieces of a tree from left to right. -/
def Tree.symbols : Tree → List Symbol
  | atom t => [.atom t]
  | neg f => .negation :: f.symbols
  | binary c l r => l.symbols ++ .connective c :: r.symbols
  | group b f => .opening b :: f.symbols ++ [.closing b]

/-- The pieces of a proposition. -/
def Proposition.symbols (p : Proposition) : List Symbol :=
  match p.label with
  | none => p.tree.symbols
  | some t => .name t :: .assign :: p.tree.symbols

/-- The pieces of a list of propositions, with a comma before each but the
first. -/
def Proposition.listSymbols : List Proposition → List Symbol
  | [] => []
  | p :: ps => p.symbols ++ ps.flatMap fun q => .comma :: q.symbols

/-- Whether a token shows a piece of a tree.  An atom or a name is shown by its own
token, and a connective by any of its spellings. -/
def Token.Shows (numeric : Bool) (t : Token) : Symbol → Prop
  | .atom u => t = u ∧ t.IsAtom numeric
  | .negation => t.kind = .negation
  | .connective c => t.IsConnective c
  | .opening b => t.kind = .opening b
  | .closing b => t.kind = .closing b
  | .name u => t = u ∧ t.kind = .ident
  | .assign => t.kind = .assign
  | .comma => t.kind = .comma

namespace Derivation

/-- The tokens of a derived formula show its tree. -/
lemma shows_symbols (d : Derivation numeric n) :
    List.Forall₂ (Token.Shows numeric) d.tokens d.tree.symbols := by
  induction d with
  | atom t ht => exact .cons ⟨rfl, ht⟩ .nil
  | group b o c ho hc d ih => exact .cons ho (List.rel_append ih (.cons hc .nil))
  | neg t ht d ih => exact .cons ht ih
  | binary c t hc ht l r ihl ihr => exact List.rel_append ihl (.cons ht ihr)
  | next d ih => exact ih

lemma Item.shows_symbols (i : Item numeric) :
    List.Forall₂ (Token.Shows numeric) i.tokens i.proposition.symbols := by
  rcases i with d | ⟨t, e, ht, he, d⟩
  · exact d.shows_symbols
  · exact .cons ⟨rfl, ht⟩ (.cons he d.shows_symbols)

lemma Items.propositions_ne_nil (is : Items numeric) : is.propositions ≠ [] := by
  cases is <;> simp [Items.propositions]

lemma Items.shows_symbols (is : Items numeric) :
    List.Forall₂ (Token.Shows numeric) is.tokens (Proposition.listSymbols is.propositions) := by
  induction is with
  | single i => simpa [Items.tokens, Items.propositions, Proposition.listSymbols] using i.shows_symbols
  | more is comma hc i ih =>
      obtain ⟨p, ps, hps⟩ := List.exists_cons_of_ne_nil is.propositions_ne_nil
      have h := List.rel_append ih (.cons (show comma.Shows numeric .comma from hc) i.shows_symbols)
      simpa [Items.tokens, Items.propositions, hps, Proposition.listSymbols] using h

/-! ### One derivation for a tree and its tokens -/

/-- Equal trees have equally many tokens. -/
lemma length_tokens_eq {m : ℕ} {d : Derivation numeric n} {e : Derivation numeric m}
    (h : d.tree = e.tree) : d.tokens.length = e.tokens.length := by
  rw [d.shows_symbols.length_eq, e.shows_symbols.length_eq, h]

/-- A tree that binds no more tightly than a tier is not derived through the next
one. -/
lemma tree_ne (d : Derivation numeric (n + 1)) {f : Tree} (hf : f.formula.tier ≤ n) :
    d.tree ≠ f := by
  rintro rfl
  exact absurd d.le_tier_formula (not_le.mpr (Nat.lt_succ_of_le hf))

/-- A derivation is determined by its tier, its tree and its tokens. -/
lemma eq_of_eq (d e : Derivation numeric n) (hf : d.tree = e.tree)
    (ht : d.tokens = e.tokens) : d = e := by
  induction d with
  | atom t h =>
      cases e with
      | atom u h' => cases ht; rfl
      | next e => exact absurd e.tier_le (by omega)
      | _ => cases hf
  | group b o c ho hc d ih =>
      cases e with
      | group b' o' c' ho' hc' e =>
          obtain ⟨rfl, hinner⟩ := Tree.group.inj hf
          obtain ⟨rfl, htail⟩ := List.cons.inj ht
          obtain ⟨hmid, hlast⟩ := List.append_inj' htail rfl
          cases hlast
          rw [ih e hinner hmid]
      | next e => exact absurd e.tier_le (by omega)
      | _ => cases hf
  | neg t h d ih =>
      cases e with
      | neg u h' e =>
          obtain ⟨rfl, htail⟩ := List.cons.inj ht
          rw [ih e (Tree.neg.inj hf) htail]
      | next e => exact absurd hf.symm (e.tree_ne le_rfl)
      | _ => cases hf
  | binary c t hc h l r ihl ihr =>
      cases e with
      | binary c' u hc' h' l' r' =>
          obtain ⟨rfl, hl, hr⟩ := Tree.binary.inj hf
          obtain ⟨htl, hrest⟩ := List.append_inj ht (length_tokens_eq hl)
          obtain ⟨rfl, htr⟩ := List.cons.inj hrest
          rw [ihl l' hl htl, ihr r' hr htr]
      | next e => exact absurd hf.symm (e.tree_ne hc.le)
      | _ => cases hf
  | next d ih =>
      cases e with
      | next e => rw [ih e hf ht]
      | atom | group => exact absurd d.tier_le (by omega)
      | neg u h e => exact absurd hf (d.tree_ne le_rfl)
      | binary c u hc h l r => exact absurd hf (d.tree_ne hc.le)

lemma Item.eq_of_eq {i j : Item numeric} (hp : i.proposition = j.proposition)
    (ht : i.tokens = j.tokens) : i = j := by
  obtain ⟨hlabel, htree⟩ := Proposition.mk.inj hp
  cases i with
  | plain d =>
      cases j with
      | plain d' => rw [d.eq_of_eq d' htree ht]
      | named => cases hlabel
  | named t e hk he d =>
      cases j with
      | plain => cases hlabel
      | named t' e' hk' he' d' =>
          obtain ⟨rfl, htail⟩ := List.cons.inj ht
          obtain ⟨rfl, hbody⟩ := List.cons.inj htail
          rw [d.eq_of_eq d' htree hbody]

lemma Items.eq_of_eq {is js : Items numeric} (hp : is.propositions = js.propositions)
    (ht : is.tokens = js.tokens) : is = js := by
  induction is generalizing js with
  | single i =>
      cases js with
      | single j => rw [Item.eq_of_eq (List.singleton_inj.mp hp) ht]
      | more js comma hc j =>
          have h : [] = js.propositions := (List.append_inj' (show [] ++ _ = _ from hp) rfl).1
          exact absurd h.symm js.propositions_ne_nil
  | more is comma hc i ih =>
      cases js with
      | single j =>
          have h : is.propositions = [] := (List.append_inj' (show _ = [] ++ _ from hp) rfl).1
          exact absurd h is.propositions_ne_nil
      | more js comma' hc' j =>
          obtain ⟨hps, hq⟩ := List.append_inj' hp rfl
          have hlen : is.tokens.length = js.tokens.length := by
            rw [is.shows_symbols.length_eq, js.shows_symbols.length_eq, hps]
          obtain ⟨htl, hrest⟩ := List.append_inj ht hlen
          obtain ⟨rfl, htr⟩ := List.cons.inj hrest
          rw [ih hps htl, Item.eq_of_eq (List.singleton_inj.mp hq) htr]

end Derivation

end Propositional
