/-
What the reading of a request can do with one token, and what it does with many.

* `Phase.operand_eq_some_iff`, `Phase.continuation_eq_some_iff`: the tokens that
  go on with a formula, and where they lead.
* `State.next_cases`: the ways to read a token: as a first identifier, as part of an
  operand, as a connective or closing bracket, as the sign behind a name, or as a
  comma.
* `State.follow`, `State.run_of_follow`: a sequence of tokens read in full, with
  tokens to come.
* `State.run_cases`: a reading ends at the first token that cannot be read, or at
  the end of the text.
-/
import Propositional.Proofs.Grammar.Derivation

namespace Propositional

variable {numeric : Bool}

/-! ### One token within a formula -/

/-- A token is taken for a connective exactly if it stands for it. -/
lemma Token.connective?_eq_some_iff {t : Token} {c : Connective} :
    t.connective? = some c ↔ t.IsConnective c := by
  rw [Token.connective?, Token.IsConnective]
  cases hk : t.kind with
  | binary d => simp
  | ident =>
      by_cases hv : t.lexeme = "v"
      · simp [hv, eq_comm]
      · simp [hv]
  | _ => simp

lemma Token.connective?_of_comma {t : Token} (ht : t.kind = .comma) : t.connective? = none := by
  simp [Token.connective?, ht]

namespace Phase

/-- The tokens with which an operand starts. -/
lemma operand_eq_some_iff {stack : List Frame} {t : Token} {p : Phase} :
    operand numeric stack t = some p ↔
      (t.IsAtom numeric ∧ complete stack (.atom t) = p) ∨
      (t.kind = .negation ∧ awaiting (.negation :: stack) = p) ∨
      ∃ b, t.kind = .opening b ∧ awaiting (.opened b :: stack) = p := by
  rw [operand, Token.IsAtom, Token.isDigitConstant]
  cases hk : t.kind with
  | number => cases numeric <;> simp
  | _ => simp

/-- The tokens that go on after a complete operand: connectives, and the closing
bracket that belongs to the innermost open one. -/
lemma continuation_eq_some_iff {stack : List Frame} {f : Tree} {t : Token} {p : Phase} :
    continuation stack f t = some p ↔
      (∃ c, t.IsConnective c ∧ awaiting
        (.left c (Frame.reduce c.rank stack f).2 :: (Frame.reduce c.rank stack f).1) = p) ∨
      ∃ b rest g, t.kind = .closing b ∧ Frame.reduce 0 stack f = (.opened b :: rest, g) ∧
        complete rest (.group b g) = p := by
  have hclosing : ∀ b, t.kind = .closing b → t.connective? = none := by
    intro b hb
    simp [Token.connective?, hb]
  rw [continuation]
  cases hc : t.connective? with
  | some c =>
      have hc' := Token.connective?_eq_some_iff.mp hc
      constructor
      · intro h
        exact .inl ⟨c, hc', Option.some.inj h⟩
      · rintro (⟨d, hd, rfl⟩ | ⟨b, rest, g, hb, -, -⟩)
        · rw [Token.connective?_eq_some_iff.mpr hd] at hc
          cases hc
          rfl
        · rw [hclosing b hb] at hc
          cases hc
  | none =>
      have hno : ∀ c, ¬ t.IsConnective c := by
        intro c h
        rw [Token.connective?_eq_some_iff.mpr h] at hc
        cases hc
      simp only [hno, false_and, exists_false, false_or]
      split
      · next b b' rest g hk hr =>
          rw [hk, hr]
          by_cases hb : b = b'
          · subst hb
            simp [eq_comm]
          · simp [hb, Ne.symm hb]
      · next hne =>
          simp only [reduceCtorEq, false_iff, not_exists, not_and]
          intro b rest g hk hr
          exact absurd hr (hne b b rest g hk)

/-- The phase with a lone identifier taken for an atom. -/
def plain : Phase → Phase
  | start => awaiting []
  | word t => complete [] (.atom t)
  | p => p

lemma tree_plain (p : Phase) : p.plain.tree = p.tree := by
  cases p <;> rfl

lemma plain_of_operand {stack : List Frame} {t : Token} {p : Phase}
    (h : operand numeric stack t = some p) : p.plain = p := by
  rcases operand_eq_some_iff.mp h with ⟨-, rfl⟩ | ⟨-, rfl⟩ | ⟨b, -, rfl⟩ <;> rfl

lemma plain_of_continuation {stack : List Frame} {f : Tree} {t : Token} {p : Phase}
    (h : continuation stack f t = some p) : p.plain = p := by
  rcases continuation_eq_some_iff.mp h with ⟨c, -, rfl⟩ | ⟨b, rest, g, -, -, rfl⟩ <;> rfl

end Phase

/-! ### One token within a request -/

namespace State

lemma next_of_operand {s : State} {stack : List Frame} {t : Token} {p : Phase}
    (hs : s.phase.plain = .awaiting stack) (h : Phase.operand numeric stack t = some p) :
    ∃ q : Phase, s.next numeric t = .ok { s with phase := q } ∧ q.plain = p.plain := by
  obtain ⟨read, label, phase⟩ := s
  cases phase with
  | start =>
      obtain rfl : [] = stack := Phase.awaiting.inj hs
      by_cases hk : t.kind = .ident
      · refine ⟨.word t, by simp [next, accept, hk], ?_⟩
        simp only [Phase.operand, hk, Option.some.injEq] at h
        rw [← h]
        rfl
      · exact ⟨p, by simp [next, accept, hk, h], rfl⟩
  | awaiting stack' =>
      obtain rfl : stack' = stack := Phase.awaiting.inj hs
      exact ⟨p, by simp [next, accept, h], rfl⟩
  | word | complete => cases hs

/-- A token that goes on with a formula is read where an operand is complete. -/
lemma next_of_continuation {s : State} {stack : List Frame} {f : Tree} {t : Token} {p : Phase}
    (hs : s.phase.plain = .complete stack f) (h : Phase.continuation stack f t = some p) :
    s.next numeric t = .ok { s with phase := p } := by
  obtain ⟨read, label, phase⟩ := s
  cases phase with
  | word w =>
      obtain ⟨rfl, rfl⟩ := Phase.complete.inj hs
      have hk : t.kind ≠ .assign := by
        intro hk
        rcases Phase.continuation_eq_some_iff.mp h with ⟨c, hc, -⟩ | ⟨b, rest, g, hb, -⟩
        · rcases hc with hc | ⟨-, hc, -⟩ <;> simp [hk] at hc
        · simp [hk] at hb
      simp [next, accept, hk, h]
  | complete stack' f' =>
      obtain ⟨rfl, rfl⟩ := Phase.complete.inj hs
      simp [next, accept, h]
  | start | awaiting => cases hs

lemma accept_of_comma {t : Token} (ht : t.kind = .comma) (s : State) :
    s.accept numeric t = none := by
  have hoperand : ∀ stack, Phase.operand numeric stack t = none := by
    intro stack
    simp [Phase.operand, ht]
  have hcontinuation : ∀ stack f, Phase.continuation stack f t = none := by
    intro stack f
    simp [Phase.continuation, Token.connective?_of_comma ht, ht]
  rw [accept]
  cases s.phase <;> simp [ht, hoperand, hcontinuation]

lemma next_of_comma {s : State} {ps : List Proposition} {t : Token} (ht : t.kind = .comma)
    (h : s.close t = .ok ps) : s.next numeric t = .ok { read := ps } := by
  simp [next, accept_of_comma ht, h, ht]

/-- What reading a token can do: it is an identifier at the start of a proposition,
it is part of an operand, it goes on with a formula, it shows that the identifier
before it is a name, or it is the comma after a proposition. -/
lemma next_cases {s s' : State} {t : Token} (h : s.next numeric t = .ok s') :
    (s.phase = .start ∧ t.kind = .ident ∧ s' = { s with phase := .word t }) ∨
    (∃ stack p, s.phase.plain = .awaiting stack ∧ Phase.operand numeric stack t = some p ∧
      s' = { s with phase := p }) ∨
    (∃ stack f p, s.phase.plain = .complete stack f ∧ Phase.continuation stack f t = some p ∧
      s' = { s with phase := p }) ∨
    (∃ w, s.phase = .word w ∧ t.kind = .assign ∧
      s' = { s with label := some w, phase := .awaiting [] }) ∨
    ∃ ps, s.close t = .ok ps ∧ t.kind = .comma ∧ s' = { read := ps } := by
  rw [next] at h
  split at h
  · next s₁ haccept =>
      obtain rfl : s₁ = s' := Except.ok.inj h
      rw [accept] at haccept
      cases hp : s.phase with
      | start =>
          rw [hp] at haccept
          dsimp only at haccept
          split at haccept
          · next hk => exact .inl ⟨rfl, hk, (Option.some.inj haccept).symm⟩
          · obtain ⟨p, hoperand, rfl⟩ := Option.map_eq_some_iff.mp haccept
            exact .inr (.inl ⟨[], p, rfl, hoperand, rfl⟩)
      | word w =>
          rw [hp] at haccept
          dsimp only at haccept
          split at haccept
          · next hk =>
              exact .inr (.inr (.inr (.inl ⟨w, rfl, hk, (Option.some.inj haccept).symm⟩)))
          · obtain ⟨p, hcont, rfl⟩ := Option.map_eq_some_iff.mp haccept
            exact .inr (.inr (.inl ⟨[], .atom w, p, rfl, hcont, rfl⟩))
      | awaiting stack =>
          rw [hp] at haccept
          obtain ⟨p, hoperand, rfl⟩ := Option.map_eq_some_iff.mp haccept
          exact .inr (.inl ⟨stack, p, rfl, hoperand, rfl⟩)
      | complete stack f =>
          rw [hp] at haccept
          obtain ⟨p, hcont, rfl⟩ := Option.map_eq_some_iff.mp haccept
          exact .inr (.inr (.inl ⟨stack, f, p, rfl, hcont, rfl⟩))
  · split at h
    · cases h
    · next ps hclose =>
        split at h
        · next hk =>
            exact .inr (.inr (.inr (.inr ⟨ps, hclose, hk, (Except.ok.inj h).symm⟩)))
        · cases h

/-- What a token that cannot be read leads to: the current proposition is not
complete, or it is and neither it nor the list can go on. -/
lemma next_error_cases {s : State} {t : Token} {r : Reading} (h : s.next numeric t = .error r) :
    (∃ rejection, s.close t = .error rejection ∧ r = ⟨s.read, s.label, some rejection⟩) ∨
    ∃ ps, s.close t = .ok ps ∧ r = ⟨ps, none, some ⟨.endExpected, t⟩⟩ := by
  rw [next] at h
  split at h
  · cases h
  · split at h
    · next rejection hclose => exact .inl ⟨rejection, hclose, (Except.error.inj h).symm⟩
    · next ps hclose =>
        split at h
        · cases h
        · exact .inr ⟨ps, hclose, (Except.error.inj h).symm⟩

/-- What the end of the text leads to. -/
lemma conclude_cases (s : State) (eof : Token) :
    (∃ rejection, s.close eof = .error rejection ∧
      s.conclude eof = ⟨s.read, s.label, some rejection⟩) ∨
    ∃ ps, s.close eof = .ok ps ∧ s.conclude eof = ⟨ps, none, none⟩ := by
  rw [conclude]
  cases s.close eof with
  | error rejection => exact .inl ⟨rejection, rfl, rfl⟩
  | ok ps => exact .inr ⟨ps, rfl, rfl⟩

/-! ### Many tokens -/

lemma run_of_next {s s' : State} {t : Token} (h : s.next numeric t = .ok s') (ts : List Token)
    (eof : Token) : s.run numeric (t :: ts) eof = s'.run numeric ts eof := by
  rw [run, h]

lemma run_of_next_error {s : State} {t : Token} {r : Reading} (h : s.next numeric t = .error r)
    (ts : List Token) (eof : Token) : s.run numeric (t :: ts) eof = r := by
  rw [run, h]

/-- Reads all of a sequence of tokens, with tokens to come. -/
def follow (numeric : Bool) (s : State) (ts : List Token) : Except Reading State :=
  ts.foldlM (State.next numeric) s

lemma follow_cons (s : State) (t : Token) (ts : List Token) :
    s.follow numeric (t :: ts) = (s.next numeric t).bind (State.follow numeric · ts) := rfl

lemma follow_append {s s' : State} {ts : List Token} (h : s.follow numeric ts = .ok s')
    (us : List Token) : s.follow numeric (ts ++ us) = s'.follow numeric us := by
  rw [follow] at h
  rw [follow, List.foldlM_append, h]
  rfl

lemma follow_append_singleton {s s' : State} {ts : List Token} (h : s.follow numeric ts = .ok s')
    (t : Token) : s.follow numeric (ts ++ [t]) = s'.next numeric t := by
  rw [follow_append h, follow_cons]
  cases s'.next numeric t <;> rfl

/-- Tokens that can all be read are behind the reading of what comes after. -/
lemma run_of_follow {s s' : State} {ts : List Token} (h : s.follow numeric ts = .ok s')
    (us : List Token) (eof : Token) : s.run numeric (ts ++ us) eof = s'.run numeric us eof := by
  induction ts generalizing s with
  | nil =>
      cases h
      rfl
  | cons t ts ih =>
      rw [follow_cons] at h
      cases hn : s.next numeric t with
      | error r => rw [hn] at h; cases h
      | ok s₁ =>
          rw [hn] at h
          rw [List.cons_append, run_of_next hn]
          exact ih h

/-- A reading ends at the end of the text, or at the first token that cannot be
read. -/
lemma run_cases (numeric : Bool) (s : State) (ts : List Token) (eof : Token) :
    (∃ s', s.follow numeric ts = .ok s' ∧ s.run numeric ts eof = s'.conclude eof) ∨
    ∃ us t vs s' r, ts = us ++ t :: vs ∧ s.follow numeric us = .ok s' ∧
      s'.next numeric t = .error r ∧ s.run numeric ts eof = r := by
  induction ts generalizing s with
  | nil => exact .inl ⟨s, rfl, rfl⟩
  | cons t ts ih =>
      cases hn : s.next numeric t with
      | error r => exact .inr ⟨[], t, ts, s, r, rfl, rfl, hn, run_of_next_error hn ts eof⟩
      | ok s₁ =>
          rw [follow_cons, hn, run_of_next hn]
          rcases ih s₁ with ⟨s', hf, hr⟩ | ⟨us, u, vs, s', r, rfl, hf, hnext, hr⟩
          · exact .inl ⟨s', hf, hr⟩
          · refine .inr ⟨t :: us, u, vs, s', r, rfl, ?_, hnext, hr⟩
            rw [follow_cons, hn]
            exact hf

end State

end Propositional
