/-
What becomes of a text: its table, a fault of naming or a fault of syntax.

* `Token.IsInner`: the tokens that stand within formulas.
* `Derivation.ReadSoFar`: the propositions that were read before a fault of syntax, and
  the name of the one that was begun.
* `Reading.stops_at`: what a reading has got when it stops at a fault.
* `Source.FirstFault.offset_lt`: the fault stands behind all that was read.
* `Table.ofText_verdict`: a text with a clash of names is rejected at the first one, even
  if there is a fault of syntax behind it; then at the name of an unfinished proposition;
  then at the fault of syntax.  Every other text has a table.
-/
import Propositional.Proofs.Evaluation

namespace Propositional

variable {numeric : Bool} {n : ℕ}

/-! ### What had been read -/

/-- A token that stands within a formula: it neither ends a proposition nor defines a
name. -/
def Token.IsInner (t : Token) : Prop := t.kind ≠ .comma ∧ t.kind ≠ .assign

lemma Token.isInner_of_kind {t : Token} {k : Token.Kind} (h : t.kind = k)
    (hk : k ≠ .comma ∧ k ≠ .assign) : t.IsInner := by
  rwa [IsInner, h]

lemma Token.IsAtom.isInner {t : Token} (h : t.IsAtom numeric) : t.IsInner := by
  rcases h with h | h | h | ⟨h, -⟩ <;> exact isInner_of_kind h (by simp)

lemma Token.IsConnective.isInner {t : Token} {c : Connective} (h : t.IsConnective c) :
    t.IsInner := by
  rcases h with h | ⟨-, h, -⟩ <;> exact isInner_of_kind h (by simp)

/-- The tokens of a formula stand within it. -/
lemma Derivation.isInner (d : Derivation numeric n) : ∀ t ∈ d.tokens, t.IsInner := by
  induction d with
  | atom t ht =>
      rw [tokens, List.forall_mem_singleton]
      exact ht.isInner
  | group b o c ho hc d ih =>
      rw [tokens, List.cons_append, List.forall_mem_cons, List.forall_mem_append,
        List.forall_mem_singleton]
      exact ⟨Token.isInner_of_kind ho (by simp), ih, Token.isInner_of_kind hc (by simp)⟩
  | neg t ht d ih =>
      rw [tokens, List.forall_mem_cons]
      exact ⟨Token.isInner_of_kind ht (by simp), ih⟩
  | binary c t hc ht l r ihl ihr =>
      rw [tokens, List.forall_mem_append, List.forall_mem_cons]
      exact ⟨ihl, ht.isInner, ihr⟩
  | next d ih => exact ih

lemma Frame.Spans.isInner {stack : List Frame} {ts : List Token}
    (h : Frame.Spans numeric stack ts) : ∀ t ∈ ts, t.IsInner := by
  induction h with
  | nil => exact List.forall_mem_nil _
  | negation h ht ih | opened h ht ih =>
      rw [List.forall_mem_append, List.forall_mem_singleton]
      exact ⟨ih, Token.isInner_of_kind ht (by simp)⟩
  | left h hfits l ht ih =>
      rw [List.forall_mem_append, List.forall_mem_append, List.forall_mem_singleton]
      exact ⟨⟨ih, l.isInner⟩, ht.isInner⟩

lemma Phase.Spans.isInner {p : Phase} {ts : List Token} (h : p.Spans numeric ts) :
    ∀ t ∈ ts, t.IsInner := by
  cases p with
  | start =>
      obtain rfl : ts = [] := h
      exact List.forall_mem_nil _
  | word t =>
      obtain ⟨rfl, ht⟩ := h
      rw [List.forall_mem_singleton]
      exact Token.isInner_of_kind ht (by simp)
  | awaiting stack => exact Frame.Spans.isInner h
  | complete stack f =>
      obtain ⟨us, d, hspans, -, rfl⟩ := h
      rw [List.forall_mem_append]
      exact ⟨hspans.isInner, d.isInner⟩

/-- What has been read where a request stops with the given cause: the propositions
that were read to their end, and the name of one that was begun.  If only the end of the
text can be asked for, every proposition was read to its end.  Otherwise the last one
was not, and what there is of it follows the last comma. -/
inductive Derivation.ReadSoFar (numeric : Bool) (before : List Token) :
    Rejection.Cause → List Proposition → Option Token → Prop
  | finished (is : Items numeric) (h : is.tokens = before) :
      ReadSoFar numeric before .endExpected is.propositions none
  | unfinished {cause : Rejection.Cause} {ps : List Proposition} {label : Option Token}
      {closed head rest : List Token} (hcause : cause ≠ .endExpected)
      (hbefore : closed ++ head ++ rest = before) (hclosed : Closed numeric closed ps)
      (hnames : Token.Names label head) (hrest : ∀ t ∈ rest, t.IsInner) :
      ReadSoFar numeric before cause ps label

/-- The token of a derived name is among the tokens. -/
lemma Derivation.Items.mem_of_label (is : Items numeric) {p : Proposition} {t : Token}
    (hp : p ∈ is.propositions) (ht : p.label = some t) : t ∈ is.tokens := by
  obtain ⟨d | ⟨u, e, hu, he, d⟩, rfl, htokens⟩ := is.exists_item hp
  · cases ht
  · cases ht
    exact htokens t List.mem_cons_self

/-- The tokens of the names that were read are among the tokens that were read. -/
lemma Derivation.ReadSoFar.mem_of_label {before : List Token} {cause : Rejection.Cause}
    {ps : List Proposition} {label : Option Token} {t : Token}
    (h : ReadSoFar numeric before cause ps label)
    (ht : (∃ p ∈ ps, p.label = some t) ∨ label = some t) : t ∈ before := by
  cases h with
  | finished is h =>
      obtain ⟨p, hp, hpt⟩ := ht.resolve_right nofun
      exact h ▸ is.mem_of_label hp hpt
  | @unfinished _ _ _ closed head rest hcause hbefore hclosed hnames hrest =>
      rw [← hbefore, List.mem_append, List.mem_append]
      rcases ht with ⟨p, hp, hpt⟩ | rfl
      · rcases hclosed with ⟨-, rfl⟩ | ⟨is, comma, hc, rfl, rfl⟩
        · cases hp
        · exact .inl (.inl (List.mem_append_left _ (is.mem_of_label hp hpt)))
      · obtain ⟨e, ht, he, rfl⟩ := hnames
        exact .inl (.inr List.mem_cons_self)

/-- A proposition that cannot end lacks something else than the end of the text. -/
lemma State.close_ne {s : State} {t : Token} {r : Rejection} (h : s.close t = .error r) :
    r.cause ≠ .endExpected := by
  rcases s.phase.tree_cases with ⟨-, hf⟩ | ⟨-, b, bs, -, hf⟩ | ⟨-, -, g, hf⟩ <;>
    rw [close, hf] at h <;> cases h <;> simp

/-- A reading that stops at a fault has got what stands before it. -/
lemma Reading.stops_at {source : Source} {r : Rejection}
    (h : (Reading.ofSource numeric source).result = .error r) :
    (Reading.ofSource numeric source).fault = some r ∧
    ∃ before, source.FirstFault numeric before r.token ∧
      Derivation.ReadSoFar numeric before r.cause (Reading.ofSource numeric source).propositions
        (Reading.ofSource numeric source).pending := by
  rcases Reading.ofSource_cases numeric source with
    ⟨is, -, hread⟩ | ⟨before, t, s, hfault, hfollow, hstop⟩
  · rw [hread] at h
    cases h
  · obtain ⟨closed, head, rest, hspans, hbefore⟩ := State.spans_of_follow hfollow
    rcases hstop with ⟨r', hclose, hread⟩ | ⟨ps, hclose, hread⟩
    · rw [hread] at h ⊢
      obtain rfl : r' = r := Except.error.inj h
      have htoken : r'.token = t := by rw [State.close_error hclose]
      rw [htoken]
      exact ⟨rfl, before, hfault, .unfinished (State.close_ne hclose) hbefore hspans.closed
        hspans.names hspans.phase.isInner⟩
    · rw [hread] at h ⊢
      obtain rfl : ⟨.endExpected, t⟩ = r := Except.error.inj h
      obtain ⟨is, htokens, rfl⟩ := hspans.exists_items hclose
      exact ⟨rfl, before, hfault, .finished is (htokens.trans hbefore)⟩

/-- The first fault of a text stands behind all that was read. -/
lemma Source.FirstFault.offset_lt {text : String} {before : List Token} {t u : Token}
    (h : (Source.ofText text).FirstFault numeric before t) (hu : u ∈ before) :
    u.start.offset < t.start.offset := by
  have hsplit : ∃ after, (Source.ofText text).toList = before ++ t :: after := by
    rcases h.2 with ⟨after, htokens, -⟩ | ⟨htokens, rfl, -⟩
    · refine ⟨after ++ [(Source.ofText text).eof], ?_⟩
      rw [Source.toList, htokens, List.append_assoc, List.cons_append]
    · exact ⟨[], by rw [Source.toList, htokens]⟩
  obtain ⟨after, hafter⟩ := hsplit
  have hpairwise := Source.pairwise_offset text
  rw [hafter, List.pairwise_append] at hpairwise
  exact hpairwise.2.2 u hu t List.mem_cons_self

/-! ### The verdict -/

/-- The first clash is at the name of one of the propositions. -/
lemma Proposition.FirstClash.exists_label {ps : List Proposition} {r : Rejection}
    (h : FirstClash ps r) : ∃ p ∈ ps, p.label = some r.token := by
  obtain ⟨i, p, t, hp, ht, -, -, rfl⟩ := h
  exact ⟨p, List.mem_of_getElem? hp, ht⟩

/-- A rejected request has no table. -/
lemma Table.ofText_of_error {text : String} {r : Rejection}
    (h : Request.ofText numeric text = .error r) (ordered : Bool) :
    Table.ofText numeric ordered text = .error (.rejected r) := by
  rw [ofText, h]

/-- **The verdict on a text.** A text that is read to its end has a table unless there is
a clash of names, and is rejected at the first clash.  A text with a fault of syntax is
rejected at the first clash of what stands before the fault; or else at the name of the
proposition that was begun, if it is not free; or else at the fault itself.  Every fault
of naming stands before the fault of syntax. -/
theorem Table.ofText_verdict (numeric ordered : Bool) (text : String) :
    (∀ ps, Proposition.parse numeric text = .ok ps →
      (∃ r, Proposition.FirstClash ps r ∧
        Table.ofText numeric ordered text = .error (.rejected r)) ∨
      ((∀ i, ¬ Proposition.Clash ps i) ∧ ∃ t, Table.ofText numeric ordered text = .ok t)) ∧
    ∀ e, Proposition.parse numeric text = .error e →
      ∃ before ps label, (Source.ofText text).FirstFault numeric before e.token ∧
        Derivation.ReadSoFar numeric before e.cause ps label ∧
        ((∃ r, Proposition.FirstClash ps r ∧
            Table.ofText numeric ordered text = .error (.rejected r) ∧
            r.token.start.offset < e.token.start.offset) ∨
          ((∀ i, ¬ Proposition.Clash ps i) ∧ ∃ t, label = some t ∧
            (t.lexeme ∈ Proposition.names ps ∨ t.lexeme ∈ Proposition.atoms ps) ∧
            Table.ofText numeric ordered text =
              .error (.rejected (.ofName (Proposition.names ps) t)) ∧
            t.start.offset < e.token.start.offset) ∨
          ((∀ i, ¬ Proposition.Clash ps i) ∧
            (∀ t, label = some t →
              ¬ (t.lexeme ∈ Proposition.names ps ∨ t.lexeme ∈ Proposition.atoms ps)) ∧
            Table.ofText numeric ordered text = .error (.rejected e))) := by
  have hverdict := Request.verdict_ofSource numeric (.ofText text)
  rw [← Request.ofText] at hverdict
  refine ⟨fun ps hps => ?_, fun e he => ?_⟩
  · rw [Proposition.parse] at hps
    rw [Reading.ofSource_eq hps] at hverdict
    cases hr : Request.ofText numeric text with
    | error r =>
        rw [hr] at hverdict
        refine .inl ⟨r, ?_, Table.ofText_of_error hr ordered⟩
        cases hverdict with
        | clash h => exact h
        | pending h ht => cases ht
        | fault h hfree hf => cases hf
    | ok r =>
        obtain ⟨-, hclash, e, he, -⟩ := Request.table_of_ok hr ordered
        rw [hr] at hverdict
        cases hverdict with
        | accepted => exact .inr ⟨hclash, _, he⟩
  · rw [Proposition.parse] at he
    obtain ⟨hfault, before, hfirst, hsofar⟩ := Reading.stops_at he
    refine ⟨before, _, _, hfirst, hsofar, ?_⟩
    cases hr : Request.ofText numeric text with
    | error r =>
        have htable := Table.ofText_of_error hr ordered
        rw [hr] at hverdict
        cases hverdict with
        | clash h =>
            have hmem := hsofar.mem_of_label (.inl h.exists_label)
            exact .inl ⟨r, h, htable, hfirst.offset_lt hmem⟩
        | @pending t h ht htaken =>
            have hmem := hsofar.mem_of_label (.inr ht)
            exact .inr (.inl ⟨h, t, ht, htaken, htable, hfirst.offset_lt hmem⟩)
        | fault h hfree hf =>
            rw [hfault] at hf
            obtain rfl := Option.some.inj hf
            exact .inr (.inr ⟨h, hfree, htable⟩)
    | ok r =>
        rw [hr] at hverdict
        cases hverdict with
        | accepted h hnone => rw [hfault] at hnone; cases hnone

end Propositional
