/-
Every derivable sequence of tokens is read to its end, and read as derived.

* `Frame.Fits`: a stack below which a formula of some tier is an operand of its
  own, so that nothing on the stack takes a part of it.
* `Derivation.follow_tokens`: the tokens of a formula leave the stack such that
  whatever binds no more tightly than its tier finds the derived formula there.
* `Derivation.Items.follow_tokens`, `Derivation.Items.ofSource_eq`: the same of
  propositions between commas, and hence of a request.
* `Derivation.Items.eq_of_tokens_eq`: a sequence of tokens has one derivation.
-/
import Propositional.Proofs.Grammar.Steps

namespace Propositional

variable {numeric : Bool} {n : ℕ}

/-! ### Stacks around a formula -/

/-- Whether a formula of the given tier can stand on a stack without the frame on
top taking a part of it. -/
def Frame.Fits (n : ℕ) : List Frame → Prop
  | .negation :: _ => 5 ≤ n
  | .left c _ :: _ => c.rank < n
  | _ => True

lemma Frame.Fits.mono {m : ℕ} (h : n ≤ m) {stack : List Frame} (hs : Frame.Fits n stack) :
    Frame.Fits m stack := by
  match stack with
  | [] | .opened _ :: _ => trivial
  | .negation :: _ => exact le_trans (b := n) hs h
  | .left _ _ :: _ => exact lt_of_lt_of_le (b := n) hs h

/-- Connectives and negations bind less tightly than atoms, so an atom fits
everywhere. -/
lemma Frame.fits_atom (stack : List Frame) : Frame.Fits 6 stack := by
  match stack with
  | [] | .opened _ :: _ => trivial
  | .negation :: _ => exact Nat.le_succ 5
  | .left c _ :: _ => exact c.rank_lt.trans (Nat.lt_succ_self 5)

/-- A connective completes nothing on a stack that it fits. -/
lemma Frame.reduce_of_fits {stack : List Frame} (hs : Frame.Fits n stack) (hn : n < 5)
    (f : Tree) : Frame.reduce n stack f = (stack, f) := by
  match stack with
  | [] | .opened _ :: _ => rfl
  | .negation :: _ => exact absurd hs (not_le.mpr hn)
  | .left _ _ :: _ => exact if_neg (not_le.mpr hs)

/-! ### Reading what is derived -/

namespace Derivation

/-- The tokens of a derived formula are read where an operand has to come.  The
stack that they leave need not be the one before them, since connectives on the
right may still wait for more, but for anything of the tier of the formula or a
looser one it amounts to that stack with the formula on it. -/
lemma follow_tokens (d : Derivation numeric n) {s : State} {stack : List Frame}
    (hs : s.phase.plain = .awaiting stack) (hfits : Frame.Fits n stack) :
    ∃ p stack' f, s.follow numeric d.tokens = .ok { s with phase := p } ∧
      p.plain = .complete stack' f ∧
      ∀ m ≤ n, m < 5 → Frame.reduce m stack' f = Frame.reduce m stack d.tree := by
  induction d generalizing s stack with
  | atom t ht =>
      obtain ⟨q, hnext, hq⟩ :=
        State.next_of_operand hs (Phase.operand_eq_some_iff.mpr (.inl ⟨ht, rfl⟩))
      refine ⟨q, stack, .atom t, ?_, hq, fun m _ _ => rfl⟩
      rw [tokens, State.follow_cons, hnext]
      rfl
  | group b o c ho hc d ih =>
      obtain ⟨q, hopen, hq⟩ :=
        State.next_of_operand hs (Phase.operand_eq_some_iff.mpr (.inr (.inr ⟨b, ho, rfl⟩)))
      obtain ⟨p, stack', f, hinner, hp, hreduce⟩ := ih (s := { s with phase := q }) hq trivial
      have hcontinue : Phase.continuation stack' f c =
          some (.complete stack (.group b d.tree)) :=
        Phase.continuation_eq_some_iff.mpr
          (.inr ⟨b, stack, d.tree, hc, hreduce 0 le_rfl (by decide), rfl⟩)
      have hclose : State.next numeric { s with phase := p } c = _ :=
        State.next_of_continuation hp hcontinue
      refine ⟨.complete stack (.group b d.tree), stack, .group b d.tree, ?_, rfl,
        fun m _ _ => rfl⟩
      rw [tokens, List.cons_append, State.follow_cons, hopen]
      exact (State.follow_append_singleton hinner c).trans hclose
  | neg t ht d ih =>
      obtain ⟨q, hnext, hq⟩ :=
        State.next_of_operand hs (Phase.operand_eq_some_iff.mpr (.inr (.inl ⟨ht, rfl⟩)))
      obtain ⟨p, stack', f, hinner, hp, hreduce⟩ := ih (s := { s with phase := q }) hq le_rfl
      refine ⟨p, stack', f, ?_, hp, hreduce⟩
      rw [tokens, State.follow_cons, hnext]
      exact hinner
  | @binary n c t hc ht l r ihl ihr =>
      have hn : n < 5 := hc ▸ c.rank_lt
      obtain ⟨p, stack', f, hleft, hp, hreduce⟩ := ihl hs hfits
      have htop : Frame.reduce c.rank stack' f = (stack, l.tree) := by
        rw [hc, hreduce n le_rfl hn, Frame.reduce_of_fits hfits hn]
      have hcontinue : Phase.continuation stack' f t =
          some (.awaiting (.left c l.tree :: stack)) :=
        Phase.continuation_eq_some_iff.mpr (.inl ⟨c, ht, by rw [htop]⟩)
      have hnext : State.next numeric { s with phase := p } t = _ :=
        State.next_of_continuation hp hcontinue
      obtain ⟨p', stack'', f', hright, hp', hreduce'⟩ :=
        ihr (s := { s with phase := .awaiting (.left c l.tree :: stack) }) rfl
          (show c.rank < n + 1 by omega)
      refine ⟨p', stack'', f', ?_, hp', fun m hm hm5 => ?_⟩
      · rw [tokens, State.follow_append hleft, State.follow_cons, hnext]
        exact hright
      · rw [hreduce' m (by omega) hm5, Frame.reduce, if_pos (by omega)]
        rfl
  | next d ih =>
      obtain ⟨p, stack', f, hfollow, hp, hreduce⟩ := ih hs (hfits.mono (Nat.le_succ _))
      exact ⟨p, stack', f, hfollow, hp, fun m hm hm5 => hreduce m (by omega) hm5⟩

/-- The tokens of a derived formula are read as all of a proposition. -/
lemma follow_tokens_close (d : Derivation numeric 0) {s : State}
    (hs : s.phase.plain = .awaiting []) :
    ∃ s', s.follow numeric d.tokens = .ok s' ∧
      ∀ t, s'.close t = .ok (s.read ++ [⟨s.label, d.tree⟩]) := by
  obtain ⟨p, stack, f, hfollow, hp, hreduce⟩ := d.follow_tokens hs trivial
  have htree : p.tree = .ok d.tree := by
    rw [← Phase.tree_plain, hp, Phase.tree, hreduce 0 le_rfl (by decide)]
    rfl
  refine ⟨_, hfollow, fun t => ?_⟩
  simp only [State.close, htree]

/-- The tokens of a derived proposition are read as that proposition. -/
lemma Item.follow_tokens (i : Item numeric) (ps : List Proposition) :
    ∃ s, State.follow numeric { read := ps } i.tokens = .ok s ∧
      ∀ t, s.close t = .ok (ps ++ [i.proposition]) := by
  cases i with
  | plain d => exact d.follow_tokens_close rfl
  | named t e ht he d =>
      have hname : State.next numeric { read := ps } t =
          .ok { read := ps, phase := .word t } := by
        simp [State.next, State.accept, ht]
      have hassign : State.next numeric { read := ps, phase := .word t } e =
          .ok { read := ps, label := some t, phase := .awaiting [] } := by
        simp [State.next, State.accept, he]
      obtain ⟨s, hfollow, hclose⟩ := d.follow_tokens_close
        (s := { read := ps, label := some t, phase := .awaiting [] }) rfl
      refine ⟨s, ?_, hclose⟩
      rw [tokens, State.follow_cons, hname]
      refine (State.follow_cons _ _ _).trans ?_
      rw [hassign]
      exact hfollow

/-- The tokens of derived propositions are read as those propositions. -/
lemma Items.follow_tokens (is : Items numeric) :
    ∃ s, State.follow numeric {} is.tokens = .ok s ∧ ∀ t, s.close t = .ok is.propositions := by
  induction is with
  | single i => exact i.follow_tokens []
  | more is comma hc i ih =>
      obtain ⟨s, hfollow, hclose⟩ := ih
      obtain ⟨s', hfollow', hclose'⟩ := i.follow_tokens is.propositions
      refine ⟨s', ?_, hclose'⟩
      rw [tokens, State.follow_append hfollow, State.follow_cons,
        State.next_of_comma hc (hclose comma)]
      exact hfollow'

/-- A derivable request is read to its end. -/
lemma Items.ofSource_eq (is : Items numeric) (stop : Position) :
    Reading.ofSource numeric ⟨is.tokens, stop⟩ = ⟨is.propositions, none, none⟩ := by
  obtain ⟨s, hfollow, hclose⟩ := is.follow_tokens
  have hrun := State.run_of_follow hfollow [] (Source.eof ⟨is.tokens, stop⟩)
  rw [List.append_nil] at hrun
  rw [Reading.ofSource, hrun, State.run, State.conclude, hclose]

/-- A sequence of tokens has at most one derivation. -/
lemma Items.eq_of_tokens_eq {is js : Items numeric} (h : is.tokens = js.tokens) : is = js := by
  have hi := is.ofSource_eq .start
  rw [h, js.ofSource_eq] at hi
  exact Items.eq_of_eq (Reading.mk.inj hi).1.symm h

end Derivation

end Propositional
