/-
Whatever is read to its end is derivable, and so every part of a reading has its
derivation.

* `Frame.Spans`: the tokens that a stack has taken up.  Its left operands are
  derived, and each fits on the frames below it.
* `Frame.reduce_spans`: completing operands on a stack moves tokens from the stack
  into the derivation of the formula on it.
* `State.Spans`: the tokens that a state has read: propositions that are followed
  by a comma, perhaps a name and its sign, and a part of a formula.
* `State.spans_of_follow`: a state has read the tokens that led to it.
* `State.Spans.exists_items`: where a proposition can end, all tokens so far are
  derivable.
* `parse_eq_ok_iff`: a text is accepted if and only if its tokens are derivable, by
  one derivation only, whose trees group correctly and show every token.
-/
import Propositional.Proofs.Grammar.Completeness

namespace Propositional

variable {numeric : Bool}

/-! ### Stacks -/

/-- The tokens that a stack of frames has taken up. -/
inductive Frame.Spans (numeric : Bool) : List Frame → List Token → Prop
  | nil : Spans numeric [] []
  | negation {stack : List Frame} {ts : List Token} {t : Token} (h : Spans numeric stack ts)
      (ht : t.kind = .negation) : Spans numeric (.negation :: stack) (ts ++ [t])
  | opened {stack : List Frame} {ts : List Token} {t : Token} {b : Bracket}
      (h : Spans numeric stack ts) (ht : t.kind = .opening b) :
      Spans numeric (.opened b :: stack) (ts ++ [t])
  | left {stack : List Frame} {ts : List Token} {t : Token} {c : Connective}
      (h : Spans numeric stack ts) (hfits : Frame.Fits c.rank stack)
      (l : Derivation numeric c.rank) (ht : t.IsConnective c) :
      Spans numeric (.left c l.tree :: stack) (ts ++ l.tokens ++ [t])

/-- Completing the operands on a stack down to a tier leaves a stack on which a
formula of that tier fits, and the same tokens in all. -/
lemma Frame.reduce_spans {stack : List Frame} {us : List Token}
    (h : Frame.Spans numeric stack us) {n m : ℕ} (d : Derivation numeric n)
    (hfits : Frame.Fits n stack) (hm : m ≤ n) (hm5 : m < 5) :
    ∃ stack' us', ∃ e : Derivation numeric m,
      Frame.reduce m stack d.tree = (stack', e.tree) ∧ Frame.Spans numeric stack' us' ∧
      Frame.Fits m stack' ∧ us' ++ e.tokens = us ++ d.tokens := by
  induction h generalizing n with
  | nil =>
      obtain ⟨e, ht, hf⟩ := d.exists_of_le hm
      exact ⟨[], [], e, by rw [hf]; rfl, .nil, trivial, by rw [ht]⟩
  | opened h ht =>
      obtain ⟨e, ht', hf⟩ := d.exists_of_le hm
      exact ⟨_, _, e, by rw [hf]; rfl, .opened h ht, trivial, by rw [ht']⟩
  | @negation stack ts t h ht ih =>
      obtain ⟨e, ht', hf⟩ := d.exists_of_le hfits
      have hstack : Frame.Fits 5 stack := by
        match stack with
        | [] | .opened _ :: _ => trivial
        | .negation :: _ => exact le_rfl
        | .left c _ :: _ => exact c.rank_lt
      obtain ⟨stack', us', e', hreduce, hspans, hfits', htokens⟩ :=
        ih (.neg t ht e) hstack hm5.le
      refine ⟨stack', us', e', ?_, hspans, hfits', ?_⟩
      · rw [← hreduce, Derivation.tree, hf]
        rfl
      · rw [htokens, Derivation.tokens, ht', List.append_assoc]
        rfl
  | @left stack ts t c h hfits' l ht ih =>
      by_cases hc : m ≤ c.rank
      · obtain ⟨r, ht', hf⟩ := d.exists_of_le (m := c.rank + 1) hfits
        obtain ⟨stack', us', e, hreduce, hspans, hfits'', htokens⟩ :=
          ih (.binary c t rfl ht l r) hfits' hc
        refine ⟨stack', us', e, ?_, hspans, hfits'', ?_⟩
        · rw [← hreduce, Derivation.tree, hf, Frame.reduce, if_pos hc]
        · rw [htokens, Derivation.tokens, ht']
          simp
      · obtain ⟨e, ht', hf⟩ := d.exists_of_le hm
        refine ⟨_, _, e, ?_, .left h hfits' l ht, not_le.mp hc, by rw [ht']⟩
        rw [hf, Frame.reduce, if_neg hc]

/-! ### States -/

/-- The tokens of a formula that a phase has read. -/
def Phase.Spans (numeric : Bool) : Phase → List Token → Prop
  | .start, ts => ts = []
  | .word t, ts => ts = [t] ∧ t.kind = .ident
  | .awaiting stack, ts => Frame.Spans numeric stack ts
  | .complete stack f, ts => ∃ us, ∃ d : Derivation numeric 6,
      Frame.Spans numeric stack us ∧ d.tree = f ∧ ts = us ++ d.tokens

/-- Tokens that are the given propositions, each followed by a comma. -/
def Derivation.Closed (numeric : Bool) (ts : List Token) (ps : List Proposition) : Prop :=
  ts = [] ∧ ps = [] ∨ ∃ is : Derivation.Items numeric, ∃ comma : Token,
    comma.kind = .comma ∧ ts = is.tokens ++ [comma] ∧ ps = is.propositions

/-- The tokens that name a proposition: none, or the name and the sign behind it. -/
def Token.Names (label : Option Token) (ts : List Token) : Prop :=
  match label with
  | none => ts = []
  | some t => ∃ e : Token, t.kind = .ident ∧ e.kind = .assign ∧ ts = [t, e]

/-- The tokens that a state has read: closed propositions, the name of the current
one, and what there is of its formula.  An identifier is only told apart from an
operand while there is no name yet. -/
structure State.Spans (numeric : Bool) (s : State) (before head rest : List Token) : Prop where
  closed : Derivation.Closed numeric before s.read
  names : Token.Names s.label head
  phase : s.phase.Spans numeric rest
  plain : s.label = none ∨ s.phase.plain = s.phase

/-- The tokens of a phase are also those of the phase with a lone identifier taken
for an atom. -/
lemma Phase.Spans.plain {p : Phase} {ts : List Token} (h : p.Spans numeric ts) :
    p.plain.Spans numeric ts := by
  cases p with
  | start =>
      obtain rfl : ts = [] := h
      exact Frame.Spans.nil
  | word t =>
      obtain ⟨rfl, ht⟩ := h
      exact ⟨[], .atom t (.inl ht), .nil, rfl, rfl⟩
  | awaiting | complete => exact h

/-- What an operand adds to the tokens of a phase. -/
lemma Phase.Spans.operand {stack : List Frame} {ts : List Token} {t : Token} {p : Phase}
    (hs : Frame.Spans numeric stack ts) (h : Phase.operand numeric stack t = some p) :
    p.Spans numeric (ts ++ [t]) := by
  rcases Phase.operand_eq_some_iff.mp h with ⟨ht, rfl⟩ | ⟨ht, rfl⟩ | ⟨b, ht, rfl⟩
  · exact ⟨ts, .atom t ht, hs, rfl, rfl⟩
  · exact hs.negation ht
  · exact hs.opened ht

/-- What a connective or a closing bracket adds to the tokens of a phase. -/
lemma Phase.Spans.continuation {stack : List Frame} {f : Tree} {ts : List Token} {t : Token}
    {p : Phase} (hs : (Phase.complete stack f).Spans numeric ts)
    (h : Phase.continuation stack f t = some p) : p.Spans numeric (ts ++ [t]) := by
  obtain ⟨us, d, hspans, rfl, rfl⟩ := hs
  have hfits := Frame.fits_atom stack
  rcases Phase.continuation_eq_some_iff.mp h with ⟨c, hc, rfl⟩ | ⟨b, rest, g, hb, hreduce, rfl⟩
  · obtain ⟨stack', us', e, hreduce, hspans', hfits', htokens⟩ :=
      Frame.reduce_spans hspans d hfits (c.rank_lt.le.trans (Nat.le_succ 5)) c.rank_lt
    rw [hreduce, ← htokens]
    exact hspans'.left hfits' e hc
  · obtain ⟨stack', us', e, hreduce', hspans', -, htokens⟩ :=
      Frame.reduce_spans hspans d hfits (Nat.zero_le 6) (by decide)
    rw [hreduce'] at hreduce
    obtain ⟨rfl, rfl⟩ := Prod.mk.inj hreduce
    obtain - | - | @⟨_, us, o, _, hrest, ho⟩ := hspans'
    refine ⟨us, .group b o t ho hb e, hrest, rfl, ?_⟩
    rw [← htokens, Derivation.tokens]
    simp

/-- A formula that is complete is derived from all tokens of its phase. -/
lemma Phase.Spans.exists_derivation {p : Phase} {ts : List Token} {g : Tree}
    (h : p.Spans numeric ts) (hg : p.tree = .ok g) :
    ∃ d : Derivation numeric 0, d.tokens = ts ∧ d.tree = g := by
  have hplain := h.plain
  rw [← Phase.tree_plain] at hg
  cases hp : p.plain with
  | start | awaiting => rw [hp] at hg; cases hg
  | word t => cases p <;> cases hp
  | complete stack f =>
      rw [hp] at hg hplain
      obtain ⟨us, d, hspans, rfl, rfl⟩ := hplain
      obtain ⟨stack', us', e, hreduce, hspans', hfits', htokens⟩ :=
        Frame.reduce_spans hspans d (Frame.fits_atom stack) (Nat.zero_le 6) (by decide)
      rw [Phase.tree, hreduce] at hg
      cases hspans' with
      | nil => exact ⟨e, htokens, Except.ok.inj hg⟩
      | opened => cases hg
      | negation => exact absurd hfits' (Nat.not_succ_le_zero 4)
      | left h hfits l ht => exact absurd hfits' (Nat.not_lt_zero _)

namespace State.Spans

variable {s s' : State} {before head rest : List Token}

/-- Where the current proposition can end, the tokens so far are those of a list of
propositions. -/
lemma exists_items {t : Token} {ps : List Proposition} (h : s.Spans numeric before head rest)
    (hps : s.close t = .ok ps) :
    ∃ is : Derivation.Items numeric, is.tokens = before ++ head ++ rest ∧
      is.propositions = ps := by
  obtain ⟨read, label, phase⟩ := s
  obtain ⟨hclosed, hnames, hphase, -⟩ := h
  rw [close] at hps
  dsimp only at hps
  cases hg : phase.tree with
  | error cause => rw [hg] at hps; cases hps
  | ok g =>
      rw [hg] at hps
      obtain rfl := Except.ok.inj hps
      obtain ⟨d, rfl, rfl⟩ := hphase.exists_derivation hg
      have hitem : ∃ i : Derivation.Item numeric, i.tokens = head ++ d.tokens ∧
          i.proposition = ⟨label, d.tree⟩ := by
        cases label with
        | none =>
            obtain rfl : head = [] := hnames
            exact ⟨.plain d, rfl, rfl⟩
        | some t =>
            obtain ⟨e, ht, he, rfl⟩ := hnames
            exact ⟨.named t e ht he d, rfl, rfl⟩
      obtain ⟨i, hi, hip⟩ := hitem
      rcases hclosed with ⟨rfl, rfl⟩ | ⟨is, comma, hc, rfl, rfl⟩
      · exact ⟨.single i, hi, by rw [Derivation.Items.propositions, hip]; rfl⟩
      · refine ⟨.more is comma hc i, ?_, by rw [Derivation.Items.propositions, hip]⟩
        simp [Derivation.Items.tokens, hi]

/-- A token that is read is added to the tokens of the state. -/
lemma next {t : Token} (h : s.Spans numeric before head rest) (hn : s.next numeric t = .ok s') :
    ∃ before' head' rest', s'.Spans numeric before' head' rest' ∧
      before' ++ head' ++ rest' = before ++ head ++ rest ++ [t] := by
  rcases State.next_cases hn with ⟨hp, ht, rfl⟩ | ⟨stack, p, hp, hoperand, rfl⟩ |
    ⟨stack, f, p, hp, hcont, rfl⟩ | ⟨w, hp, ht, rfl⟩ | ⟨ps, hclose, ht, rfl⟩
  · -- the first identifier of a proposition without a name
    have hrest : rest = [] := by
      have := h.phase
      rwa [hp] at this
    have hlabel : s.label = none := by
      refine h.plain.resolve_right ?_
      rw [hp]
      exact Phase.noConfusion
    exact ⟨before, head, [t], ⟨h.closed, h.names, ⟨rfl, ht⟩, .inl hlabel⟩, by simp [hrest]⟩
  · have hspans := h.phase.plain
    rw [hp] at hspans
    exact ⟨before, head, rest ++ [t], ⟨h.closed, h.names, Phase.Spans.operand hspans hoperand,
      .inr (Phase.plain_of_operand hoperand)⟩, by simp⟩
  · have hspans := h.phase.plain
    rw [hp] at hspans
    exact ⟨before, head, rest ++ [t], ⟨h.closed, h.names, Phase.Spans.continuation hspans hcont,
      .inr (Phase.plain_of_continuation hcont)⟩, by simp⟩
  · -- the lone identifier turns out to be a name
    have hlabel : s.label = none := by
      refine h.plain.resolve_right ?_
      rw [hp]
      exact Phase.noConfusion
    have hhead : head = [] := by
      have := h.names
      rwa [hlabel] at this
    have hword := h.phase
    rw [hp] at hword
    obtain ⟨rfl, hw⟩ := hword
    exact ⟨before, [w, t], [], ⟨h.closed, ⟨t, hw, ht, rfl⟩, .nil, .inr rfl⟩, by simp [hhead]⟩
  · obtain ⟨is, htokens, rfl⟩ := h.exists_items hclose
    exact ⟨is.tokens ++ [t], [], [], ⟨.inr ⟨is, t, ht, rfl, rfl⟩, rfl, rfl, .inl rfl⟩,
      by simp [htokens]⟩

end State.Spans

/-- A state has read the tokens that led to it. -/
lemma State.spans_of_follow {ts : List Token} {s : State}
    (h : State.follow numeric {} ts = .ok s) :
    ∃ before head rest, s.Spans numeric before head rest ∧ before ++ head ++ rest = ts := by
  induction ts using List.reverseRecOn generalizing s with
  | nil =>
      obtain rfl := Except.ok.inj h
      exact ⟨[], [], [], ⟨.inl ⟨rfl, rfl⟩, rfl, rfl, .inl rfl⟩, rfl⟩
  | append_singleton ts t ih =>
      cases hf : State.follow numeric {} ts with
      | error r =>
          rw [State.follow, List.foldlM_append] at h
          rw [State.follow] at hf
          rw [hf] at h
          cases h
      | ok s₁ =>
          rw [State.follow_append_singleton hf] at h
          obtain ⟨before, head, rest, hspans, htokens⟩ := ih hf
          obtain ⟨before', head', rest', hspans', htokens'⟩ := hspans.next h
          exact ⟨before', head', rest', hspans', by rw [htokens', htokens]⟩

/-! ### Requests -/

/-- A request is read to its end exactly if its tokens are derivable, and it is read
as derived. -/
lemma Reading.result_eq_ok_iff (source : Source) (ps : List Proposition) :
    (Reading.ofSource numeric source).result = .ok ps ↔
      ∃ is : Derivation.Items numeric, is.tokens = source.tokens ∧ is.propositions = ps := by
  constructor
  · intro h
    rw [Reading.ofSource] at h
    rcases State.run_cases numeric {} source.tokens source.eof with
      ⟨s, hfollow, hrun⟩ | ⟨us, t, vs, s, r, -, -, hnext, hrun⟩
    · obtain ⟨before, head, rest, hspans, htokens⟩ := State.spans_of_follow hfollow
      rw [hrun] at h
      rcases s.conclude_cases source.eof with ⟨rejection, -, hr⟩ | ⟨ps', hclose, hr⟩
      · rw [hr] at h
        cases h
      · rw [hr] at h
        obtain rfl : ps' = ps := Except.ok.inj h
        rw [← htokens]
        exact hspans.exists_items hclose
    · rw [hrun] at h
      rcases State.next_error_cases hnext with ⟨rejection, -, rfl⟩ | ⟨ps', -, rfl⟩ <;> cases h
  · rintro ⟨is, htokens, rfl⟩
    have h := is.ofSource_eq source.stop
    rw [htokens] at h
    rw [h]
    rfl

/-- **The grammar of requests.** A text is accepted exactly if its tokens are
derivable.  The derivation is then the only one, and the propositions are its trees:
they show all the tokens of the text in their order, and none of their operands binds
less tightly than its place allows. -/
theorem parse_eq_ok_iff (numeric : Bool) (text : String) :
    (∀ ps, Proposition.parse numeric text = .ok ps ↔
      ∃ is : Derivation.Items numeric,
        is.tokens = (Source.ofText text).tokens ∧ is.propositions = ps) ∧
    (∀ is js : Derivation.Items numeric,
      is.tokens = (Source.ofText text).tokens → js.tokens = (Source.ofText text).tokens →
        is = js) ∧
    ∀ ps, Proposition.parse numeric text = .ok ps →
      List.Forall₂ (Token.Shows numeric) (Source.ofText text).tokens
        (Proposition.listSymbols ps) ∧
      ∀ p ∈ ps, p.formula.Grouped := by
  have hiff : ∀ ps, Proposition.parse numeric text = .ok ps ↔ _ :=
    Reading.result_eq_ok_iff (.ofText text)
  refine ⟨hiff, fun is js hi hj => Derivation.Items.eq_of_tokens_eq (hi.trans hj.symm), ?_⟩
  intro ps hps
  obtain ⟨is, htokens, rfl⟩ := (hiff ps).mp hps
  rw [← htokens]
  exact ⟨is.shows_symbols, is.grouped⟩

end Propositional
