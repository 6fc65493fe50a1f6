/-
Two texts that are read in step.

A relation between tokens is a `Token.Likeness` if the reading cannot tell related
tokens apart: they have the same kind and, where the lexeme counts, the same lexeme.
It extends to everything that the reading builds from tokens.

* `Tree.Rel`, `Proposition.Rel`, `Phase.Rel`, `State.Rel`, `Rejection.Rel`, `Reading.Rel`:
  the same trees and causes, at related tokens.
* `Frame.reduce_rel`, `Token.Likeness.operand`, `Token.Likeness.continuation`: one pair of
  related tokens within a formula.
* `State.next_rel`: one pair of related tokens keeps two readings in step, or ends both
  of them for the same reason.
* `State.run_rel`, `Reading.ofSource_rel`: so do all the tokens of two texts.
-/
import Propositional.Proofs.Grammar.Steps

namespace Propositional

/-! ### Likeness of tokens -/

/-- The tokens whose lexemes count: names, numbers and the two signs for the
constants. -/
def Token.IsWord (t : Token) : Prop :=
  t.kind = .ident ∨ t.kind = .number ∨ t.kind = .top ∨ t.kind = .bottom

/-- Whether the reading takes tokens that are related for one another. -/
structure Token.Likeness (R : Token → Token → Prop) : Prop where
  kind : ∀ {t u}, R t u → t.kind = u.kind
  lexeme : ∀ {t u}, R t u → t.IsWord → t.lexeme = u.lexeme

/-- Two outcomes of the same sort with related contents. -/
inductive Except.Rel {ε δ α β : Type} (E : ε → δ → Prop) (A : α → β → Prop) :
    Except ε α → Except δ β → Prop
  | ok {a : α} {b : β} (h : A a b) : Rel E A (.ok a) (.ok b)
  | error {e : ε} {d : δ} (h : E e d) : Rel E A (.error e) (.error d)

section Relations

variable (R : Token → Token → Prop)

/-- Names of propositions: the same text, in related tokens. -/
def Token.NameRel (t u : Token) : Prop := R t u ∧ t.lexeme = u.lexeme

/-- The same tree with related tokens for atoms, which have the same names. -/
inductive Tree.Rel : Tree → Tree → Prop
  | atom {t u : Token} (h : Token.NameRel R t u) : Rel (.atom t) (.atom u)
  | neg {f g : Tree} (h : Rel f g) : Rel (.neg f) (.neg g)
  | binary (c : Connective) {l l' r r' : Tree} (hl : Rel l l') (hr : Rel r r') :
      Rel (.binary c l r) (.binary c l' r')
  | group (b : Bracket) {f g : Tree} (h : Rel f g) : Rel (.group b f) (.group b g)

/-- The same tree under the same name. -/
structure Proposition.Rel (p q : Proposition) : Prop where
  label : Option.Rel (Token.NameRel R) p.label q.label
  tree : Tree.Rel R p.tree q.tree

/-- Frames that wait alike. -/
inductive Frame.Rel : Frame → Frame → Prop
  | negation : Rel .negation .negation
  | left (c : Connective) {f g : Tree} (h : Tree.Rel R f g) : Rel (.left c f) (.left c g)
  | opened (b : Bracket) : Rel (.opened b) (.opened b)

/-- The same phase; a lone identifier may become a name. -/
inductive Phase.Rel : Phase → Phase → Prop
  | start : Rel .start .start
  | word {t u : Token} (h : Token.NameRel R t u) : Rel (.word t) (.word u)
  | awaiting {stack stack' : List Frame} (h : List.Forall₂ (Frame.Rel R) stack stack') :
      Rel (.awaiting stack) (.awaiting stack')
  | complete {stack stack' : List Frame} {f g : Tree} (h : List.Forall₂ (Frame.Rel R) stack stack')
      (hf : Tree.Rel R f g) : Rel (.complete stack f) (.complete stack' g)

/-- Two requests read equally far, with the same result so far. -/
structure State.Rel (s s' : State) : Prop where
  read : List.Forall₂ (Proposition.Rel R) s.read s'.read
  label : Option.Rel (Token.NameRel R) s.label s'.label
  phase : Phase.Rel R s.phase s'.phase

/-- The same cause at related tokens. -/
structure Rejection.Rel (r r' : Rejection) : Prop where
  cause : r.cause = r'.cause
  token : R r.token r'.token

/-- Two requests read with the same result. -/
structure Reading.Rel (r r' : Reading) : Prop where
  propositions : List.Forall₂ (Proposition.Rel R) r.propositions r'.propositions
  pending : Option.Rel (Token.NameRel R) r.pending r'.pending
  fault : Option.Rel (Rejection.Rel R) r.fault r'.fault

end Relations

variable {R : Token → Token → Prop}

lemma Token.map_lexeme_of_nameRel {a b : Option Token} (h : Option.Rel (Token.NameRel R) a b) :
    a.map Token.lexeme = b.map Token.lexeme := by
  cases h with
  | some h => exact congrArg some h.2
  | none => rfl

lemma Proposition.Rel.name {p q : Proposition} (h : Proposition.Rel R p q) : p.name = q.name :=
  Token.map_lexeme_of_nameRel h.label

lemma Tree.Rel.formula {f g : Tree} (h : Tree.Rel R f g) : f.formula = g.formula := by
  induction h with
  | atom h => exact congrArg Formula.atom h.2
  | neg h ih => exact congrArg Formula.neg ih
  | binary c hl hr ihl ihr => exact congrArg₂ (Formula.binary c) ihl ihr
  | group b h ih => exact congrArg (Formula.group b) ih

lemma Proposition.Rel.formula {p q : Proposition} (h : Proposition.Rel R p q) :
    p.formula = q.formula := h.tree.formula

/-! ### One token within a formula -/

/-- Operands on related stacks are completed alike. -/
lemma Frame.reduce_rel (n : ℕ) {stack stack' : List Frame}
    (h : List.Forall₂ (Frame.Rel R) stack stack') {f g : Tree} (hf : Tree.Rel R f g) :
    List.Forall₂ (Frame.Rel R) (Frame.reduce n stack f).1 (Frame.reduce n stack' g).1 ∧
      Tree.Rel R (Frame.reduce n stack f).2 (Frame.reduce n stack' g).2 := by
  induction h generalizing f g with
  | nil => exact ⟨.nil, hf⟩
  | cons hframe hrest ih =>
      cases hframe with
      | negation => exact ih (.neg hf)
      | left c hl =>
          rw [Frame.reduce, Frame.reduce]
          split
          · exact ih (.binary c hl hf)
          · exact ⟨.cons (.left c hl) hrest, hf⟩
      | opened b => exact ⟨.cons (.opened b) hrest, hf⟩

/-- Related phases end with related trees, or lack the same. -/
lemma Phase.Rel.tree {p q : Phase} (h : Phase.Rel R p q) :
    Except.Rel Eq (Tree.Rel R) p.tree q.tree := by
  cases h with
  | start | awaiting => exact .error rfl
  | word h => exact .ok (.atom h)
  | @complete stack stack' f g h hf =>
      obtain ⟨hstack, htree⟩ := Frame.reduce_rel 0 h hf
      rw [Phase.tree, Phase.tree]
      generalize Frame.reduce 0 stack f = x, Frame.reduce 0 stack' g = y at hstack htree
      obtain ⟨frames, f⟩ := x
      obtain ⟨frames', g⟩ := y
      cases hstack with
      | nil => exact .ok htree
      | cons hframe _ =>
          cases hframe with
          | negation | left => exact .ok htree
          | opened b => exact .error rfl

namespace Token.Likeness

variable {t u : Token} {stack stack' : List Frame}

lemma connective? (hR : Token.Likeness R) (h : R t u) : t.connective? = u.connective? := by
  rw [Token.connective?, Token.connective?, ← hR.kind h]
  cases hk : t.kind with
  | ident => rw [hR.lexeme h (.inl hk)]
  | _ => rfl

/-- Related tokens start related operands. -/
lemma operand (hR : Token.Likeness R) (h : R t u) (numeric : Bool)
    (hstack : List.Forall₂ (Frame.Rel R) stack stack') :
    Option.Rel (Phase.Rel R) (Phase.operand numeric stack t)
      (Phase.operand numeric stack' u) := by
  have hatom : t.IsWord → Phase.Rel R (.complete stack (.atom t)) (.complete stack' (.atom u)) :=
    fun hword => .complete hstack (.atom ⟨h, hR.lexeme h hword⟩)
  rw [Phase.operand, Phase.operand, ← hR.kind h]
  cases hk : t.kind with
  | ident => exact .some (hatom (.inl hk))
  | number =>
      have hword : t.IsWord := .inr (.inl hk)
      dsimp only
      rw [Token.isDigitConstant, Token.isDigitConstant, ← hR.lexeme h hword]
      split
      · exact .some (hatom hword)
      · exact .none
  | top => exact .some (hatom (.inr (.inr (.inl hk))))
  | bottom => exact .some (hatom (.inr (.inr (.inr hk))))
  | negation => exact .some (.awaiting (.cons .negation hstack))
  | opening b => exact .some (.awaiting (.cons (.opened b) hstack))
  | _ => exact .none

/-- Related tokens go on with related formulas alike. -/
lemma continuation (hR : Token.Likeness R) (h : R t u)
    (hstack : List.Forall₂ (Frame.Rel R) stack stack') {f g : Tree} (hf : Tree.Rel R f g) :
    Option.Rel (Phase.Rel R) (Phase.continuation stack f t)
      (Phase.continuation stack' g u) := by
  rw [Phase.continuation, Phase.continuation, ← hR.connective? h, ← hR.kind h]
  cases t.connective? with
  | some c =>
      obtain ⟨hrest, hl⟩ := Frame.reduce_rel c.rank hstack hf
      exact .some (.awaiting (.cons (.left c hl) hrest))
  | none =>
      obtain ⟨hrest, hg⟩ := Frame.reduce_rel 0 hstack hf
      dsimp only
      generalize Frame.reduce 0 stack f = x, Frame.reduce 0 stack' g = y at hrest hg
      obtain ⟨frames, f⟩ := x
      obtain ⟨frames', g⟩ := y
      cases t.kind with
      | closing b =>
          cases hrest with
          | nil => exact .none
          | cons hframe hframes =>
              cases hframe with
              | negation | left => exact .none
              | opened b' =>
                  dsimp only
                  split
                  · exact .some (.complete hframes (.group b hg))
                  · exact .none
      | _ => exact .none

end Token.Likeness

/-! ### One token within a request -/

namespace State

variable {s s' : State} {t u : Token}

/-- Readings that go on within a formula stay in step. -/
lemma Rel.map_phase (h : State.Rel R s s') {next next' : Option Phase}
    (hnext : Option.Rel (Phase.Rel R) next next') :
    Option.Rel (State.Rel R) (next.map fun phase => { s with phase })
      (next'.map fun phase => { s' with phase }) := by
  cases hnext with
  | none => exact .none
  | some hp => exact .some ⟨h.read, h.label, hp⟩

lemma accept_rel (hR : Token.Likeness R) (numeric : Bool) (h : State.Rel R s s') (ht : R t u) :
    Option.Rel (State.Rel R) (s.accept numeric t) (s'.accept numeric u) := by
  have hphase := h.phase
  rw [accept, accept, ← hR.kind ht]
  generalize s.phase = p, s'.phase = q at hphase
  cases hphase with
  | start =>
      dsimp only
      split
      · next hk => exact .some ⟨h.read, h.label, .word ⟨ht, hR.lexeme ht (.inl hk)⟩⟩
      · exact h.map_phase (hR.operand ht numeric .nil)
  | word hw =>
      dsimp only
      split
      · exact .some ⟨h.read, .some hw, .awaiting .nil⟩
      · exact h.map_phase (hR.continuation ht .nil (.atom hw))
  | awaiting hstack => exact h.map_phase (hR.operand ht numeric hstack)
  | complete hstack hf => exact h.map_phase (hR.continuation ht hstack hf)

/-- Readings in step end their current propositions alike. -/
lemma close_rel (h : State.Rel R s s') (ht : R t u) :
    Except.Rel (Rejection.Rel R) (List.Forall₂ (Proposition.Rel R)) (s.close t) (s'.close u) := by
  have htree := h.phase.tree
  rw [close, close]
  generalize s.phase.tree = x, s'.phase.tree = y at htree
  cases htree with
  | ok hf => exact .ok (List.rel_append h.read (.cons ⟨h.label, hf⟩ .nil))
  | error hcause => exact .error ⟨hcause, ht⟩

/-- Related tokens keep two readings in step, or end both for the same reason. -/
lemma next_rel (hR : Token.Likeness R) (numeric : Bool) (h : State.Rel R s s') (ht : R t u) :
    Except.Rel (Reading.Rel R) (State.Rel R) (s.next numeric t) (s'.next numeric u) := by
  have haccept := accept_rel hR numeric h ht
  have hclose := close_rel h ht
  rw [next, next]
  generalize s.accept numeric t = x, s'.accept numeric u = y at haccept
  cases haccept with
  | some h' => exact .ok h'
  | none =>
      generalize s.close t = x, s'.close u = y at hclose
      cases hclose with
      | error hr => exact .error ⟨h.read, h.label, .some hr⟩
      | ok hps =>
          dsimp only
          rw [← hR.kind ht]
          split
          · exact .ok ⟨hps, .none, .start⟩
          · exact .error ⟨hps, .none, .some ⟨rfl, ht⟩⟩

lemma conclude_rel (h : State.Rel R s s') (ht : R t u) :
    Reading.Rel R (s.conclude t) (s'.conclude u) := by
  have hclose := close_rel h ht
  rw [conclude, conclude]
  generalize s.close t = x, s'.close u = y at hclose
  cases hclose with
  | error hr => exact ⟨h.read, h.label, .some hr⟩
  | ok hps => exact ⟨hps, .none, .none⟩

/-! ### All tokens -/

/-- Related tokens are read with the same result. -/
lemma run_rel (hR : Token.Likeness R) (numeric : Bool) {ts us : List Token}
    (hts : List.Forall₂ R ts us) (h : State.Rel R s s') (ht : R t u) :
    Reading.Rel R (s.run numeric ts t) (s'.run numeric us u) := by
  induction hts generalizing s s' with
  | nil => exact conclude_rel h ht
  | @cons v w _ _ hhead htail ih =>
      have hnext := next_rel hR numeric h hhead
      rw [run, run]
      generalize s.next numeric v = x, s'.next numeric w = y at hnext
      cases hnext with
      | ok h' => exact ih h'
      | error hr => exact hr

end State

lemma Reading.ofSource_rel (hR : Token.Likeness R) (numeric : Bool) {a b : Source}
    (h : List.Forall₂ R a.tokens b.tokens) (heof : R a.eof b.eof) :
    Reading.Rel R (Reading.ofSource numeric a) (Reading.ofSource numeric b) :=
  State.run_rel hR numeric h ⟨.nil, .none, .start⟩ heof

end Propositional
