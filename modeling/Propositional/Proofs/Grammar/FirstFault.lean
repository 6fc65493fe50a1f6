/-
Where a request is rejected, and why there.

* `Scan`: a reading of tokens that only knows whether an operand has to come and
  which brackets are open.
* `Phase.scan_of_next`: every reading goes along with the scan of its tokens.
* `State.exists_completion`: what has been read can always be completed, by an
  identifier where an operand has to come and by the closing brackets.
* `parse_error`: a text is rejected at its first token that no continuation can
  make good, for the cause that the scan of the tokens before it shows.
-/
import Propositional.Proofs.Grammar.Soundness
import Propositional.Proofs.Scanning

namespace Propositional

variable {numeric : Bool}

/-! ### Scanning for brackets -/

/-- Whether an operand has to come, and the open brackets, the innermost first. -/
structure Scan where
  awaits : Bool := true
  opened : List Bracket := []

namespace Scan

/-- What a token does.  Where an operand has to come, negations and opening brackets
leave it to come and anything else is one; after an operand, a closing bracket leaves
it complete and anything else calls for another. -/
def read (s : Scan) (t : Token) : Scan :=
  match s.awaits, t.kind with
  | true, .negation => s
  | true, .opening b => { s with opened := b :: s.opened }
  | true, _ => { s with awaits := false }
  | false, .closing _ => { s with opened := s.opened.tail }
  | false, _ => { s with awaits := true }

/-- Scans tokens from left to right. -/
def ofTokens (ts : List Token) : Scan := ts.foldl read {}

/-- Why the next token does not fit: an operand has to come; or none has to come, and
the innermost open bracket has to be closed; or nothing is open either. -/
def cause (s : Scan) : Rejection.Cause :=
  match s.awaits, s.opened with
  | true, _ => .operandExpected
  | false, b :: _ => .closerExpected b
  | false, [] => .endExpected

end Scan

/-- The open brackets on a stack. -/
def Frame.brackets (stack : List Frame) : List Bracket :=
  stack.filterMap fun
    | .opened b => some b
    | _ => none

@[simp] lemma Frame.brackets_nil : Frame.brackets [] = [] := rfl

@[simp] lemma Frame.brackets_negation (stack : List Frame) :
    Frame.brackets (.negation :: stack) = Frame.brackets stack := rfl

@[simp] lemma Frame.brackets_left (c : Connective) (l : Tree) (stack : List Frame) :
    Frame.brackets (.left c l :: stack) = Frame.brackets stack := rfl

@[simp] lemma Frame.brackets_opened (b : Bracket) (stack : List Frame) :
    Frame.brackets (.opened b :: stack) = b :: Frame.brackets stack := rfl

/-- Completing operands closes no bracket. -/
@[simp] lemma Frame.brackets_reduce (n : ℕ) (stack : List Frame) (f : Tree) :
    Frame.brackets (Frame.reduce n stack f).1 = Frame.brackets stack := by
  induction stack generalizing f with
  | nil => rfl
  | cons frame stack ih =>
      cases frame with
      | negation => exact ih (.neg f)
      | opened b => rfl
      | left c l =>
          by_cases hc : n ≤ c.rank
          · rw [Frame.reduce, if_pos hc]
            exact ih (.binary c l f)
          · rw [Frame.reduce, if_neg hc]

/-- At the loosest tier everything up to the innermost open bracket is completed. -/
lemma Frame.reduce_zero (stack : List Frame) (f : Tree) :
    (∃ g, Frame.reduce 0 stack f = ([], g)) ∨
      ∃ b rest g, Frame.reduce 0 stack f = (.opened b :: rest, g) := by
  induction stack generalizing f with
  | nil => exact .inl ⟨f, rfl⟩
  | cons frame stack ih =>
      cases frame with
      | negation => exact ih (.neg f)
      | opened b => exact .inr ⟨b, stack, f, rfl⟩
      | left c l => exact ih (.binary c l f)

namespace Phase

/-- What the scan knows of a phase. -/
def scan : Phase → Scan
  | start => ⟨true, []⟩
  | word _ => ⟨false, []⟩
  | awaiting stack => ⟨true, Frame.brackets stack⟩
  | complete stack _ => ⟨false, Frame.brackets stack⟩

lemma scan_plain (p : Phase) : p.plain.scan = p.scan := by
  cases p <;> rfl

/-- Whether a formula can end here is known to the scan, and what is missing if it
cannot. -/
lemma tree_cases (p : Phase) :
    (p.scan.awaits = true ∧ p.tree = .error .operandExpected) ∨
    (p.scan.awaits = false ∧
      ∃ b bs, p.scan.opened = b :: bs ∧ p.tree = .error (.closerExpected b)) ∨
    (p.scan.awaits = false ∧ p.scan.opened = [] ∧ ∃ g, p.tree = .ok g) := by
  cases p with
  | start | awaiting => exact .inl ⟨rfl, rfl⟩
  | word t => exact .inr (.inr ⟨rfl, rfl, _, rfl⟩)
  | complete stack f =>
      have hbrackets := Frame.brackets_reduce 0 stack f
      rcases Frame.reduce_zero stack f with ⟨g, hg⟩ | ⟨b, rest, g, hg⟩
      · rw [hg] at hbrackets
        exact .inr (.inr ⟨rfl, hbrackets.symm, g, by rw [tree, hg]⟩)
      · rw [hg] at hbrackets
        exact .inr (.inl ⟨rfl, b, Frame.brackets rest, hbrackets.symm, by rw [tree, hg]⟩)

/-- A reading goes along with the scan of its tokens. -/
lemma scan_of_next {s s' : State} {t : Token} (h : s.next numeric t = .ok s') :
    s'.phase.scan = s.phase.scan.read t := by
  rcases State.next_cases h with ⟨hp, ht, rfl⟩ | ⟨stack, p, hp, hoperand, rfl⟩ |
    ⟨stack, f, p, hp, hcont, rfl⟩ | ⟨w, hp, ht, rfl⟩ | ⟨ps, hclose, ht, rfl⟩
  · rw [hp]
    simp [scan, Scan.read, ht]
  · rw [← scan_plain s.phase, hp]
    rcases operand_eq_some_iff.mp hoperand with ⟨ht, rfl⟩ | ⟨ht, rfl⟩ | ⟨b, ht, rfl⟩
    · rcases ht with ht | ht | ht | ⟨ht, -⟩ <;> simp [scan, Scan.read, ht]
    · simp [scan, Scan.read, ht]
    · simp [scan, Scan.read, ht]
  · rw [← scan_plain s.phase, hp]
    rcases continuation_eq_some_iff.mp hcont with ⟨c, ht, rfl⟩ | ⟨b, rest, g, ht, hreduce, rfl⟩
    · rcases ht with ht | ⟨-, ht, -⟩ <;> simp [scan, Scan.read, ht]
    · have hbrackets := Frame.brackets_reduce 0 stack f
      rw [hreduce] at hbrackets
      simp [scan, Scan.read, ht, ← hbrackets]
  · rw [hp]
    simp [scan, Scan.read, ht]
  · have hscan : s.phase.scan = ⟨false, []⟩ := by
      rcases s.phase.tree_cases with ⟨-, hf⟩ | ⟨-, b, bs, -, hf⟩ | ⟨ha, ho, -⟩
      · simp [State.close, hf] at hclose
      · simp [State.close, hf] at hclose
      · rw [← ha, ← ho]
    rw [hscan]
    simp [scan, Scan.read, ht]

end Phase

/-! ### Completing what has been read -/

/-- The closing brackets of open ones, as a text. -/
def Bracket.closing : List Bracket → String
  | [] => ""
  | b :: bs => b.closer ++ closing bs

lemma Bracket.toList_closing_cons (b : Bracket) (bs : List Bracket) :
    (closing (b :: bs)).toList = b.closer.toList ++ (closing bs).toList := String.toList_append

lemma Bracket.scanFrom_closing (p : Position) (bs : List Bracket) :
    List.Forall₂ (fun t b => t.kind = .closing b) (Token.scanFrom p 0 (closing bs).toList) bs := by
  induction bs generalizing p with
  | nil => exact .nil
  | cons b bs ih =>
      rw [toList_closing_cons]
      cases b <;> exact .cons rfl (ih _)

/-- An identifier before closing brackets is a token of its own. -/
lemma Bracket.munch_closing (bs : List Bracket) :
    Token.munch 'p' (closing bs).toList = (some .ident, 0) := by
  cases bs with
  | nil => decide +kernel
  | cons b bs =>
      obtain ⟨c, hc, hname⟩ :
          ∃ c, b.closer.toList = [c] ∧ Text.continuesName c = false := by
        cases b <;> exact ⟨_, rfl, by decide +kernel⟩
      have htail : ((closing (b :: bs)).toList).takeWhile Text.continuesName = [] := by
        rw [toList_closing_cons, hc]
        simp [hname]
      have hblank : Text.isBlank 'p' = false := by decide +kernel
      have hstart : Text.startsName 'p' = true := by decide +kernel
      have hword : Token.wordKind ['p'] = .ident := by decide +kernel
      simp [Token.munch, htail, hblank, hstart, hword]

namespace State

/-- Closing brackets complete what lacks nothing else. -/
lemma follow_closing {ts : List Token} {s : State} (ha : s.phase.scan.awaits = false)
    (h : List.Forall₂ (fun t b => t.kind = .closing b) ts s.phase.scan.opened) :
    ∃ s', s.follow numeric ts = .ok s' ∧ s'.phase.scan = ⟨false, []⟩ := by
  induction ts generalizing s with
  | nil =>
      refine ⟨s, rfl, ?_⟩
      rw [← ha, ← List.forall₂_nil_left_iff.mp h]
  | cons t ts ih =>
      obtain ⟨b, bs, ht, hts, hopened⟩ := List.forall₂_cons_left_iff.mp h
      rw [← Phase.scan_plain] at ha hopened
      cases hp : s.phase.plain with
      | start | awaiting => rw [hp] at ha; cases ha
      | word w => rw [hp] at hopened; cases hopened
      | complete stack f =>
          rw [hp] at hopened
          have hbrackets := Frame.brackets_reduce 0 stack f
          rcases Frame.reduce_zero stack f with ⟨g, hg⟩ | ⟨b', rest, g, hg⟩
          · rw [hg, show Frame.brackets stack = b :: bs from hopened] at hbrackets
            cases hbrackets
          · rw [hg, show Frame.brackets stack = b :: bs from hopened] at hbrackets
            obtain ⟨rfl, rfl⟩ := List.cons.inj hbrackets
            have hnext : s.next numeric t = _ := next_of_continuation hp
              (Phase.continuation_eq_some_iff.mpr (.inr ⟨b', rest, g, ht, hg, rfl⟩))
            obtain ⟨s', hfollow, hscan⟩ :=
              ih (s := { s with phase := .complete rest (.group b' g) }) rfl hts
            refine ⟨s', ?_, hscan⟩
            rw [follow_cons, hnext]
            exact hfollow

/-- What has been read can be completed by the tokens of some text. -/
lemma exists_completion (numeric : Bool) (s : State) :
    ∃ more : String, ∃ s', s.follow numeric (Source.ofText more).tokens = .ok s' ∧
      s'.phase.scan = ⟨false, []⟩ := by
  cases ha : s.phase.scan.awaits with
  | false =>
      refine ⟨Bracket.closing s.phase.scan.opened, ?_⟩
      rw [Source.tokens_ofText]
      exact follow_closing ha (Bracket.scanFrom_closing .start s.phase.scan.opened)
  | true =>
      have hawaiting : ∃ stack, s.phase.plain = .awaiting stack ∧
          Frame.brackets stack = s.phase.scan.opened := by
        rw [← Phase.scan_plain] at ha ⊢
        cases hp : s.phase.plain with
        | awaiting stack => exact ⟨stack, rfl, rfl⟩
        | start => cases hq : s.phase <;> rw [hq] at hp <;> cases hp
        | word | complete => rw [hp] at ha; cases ha
      obtain ⟨stack, hp, hstack⟩ := hawaiting
      let t : Token := ⟨.ident, "p", .start⟩
      have hoperand : Phase.operand numeric stack t = some (.complete stack (.atom t)) :=
        Phase.operand_eq_some_iff.mpr (.inl ⟨.inl rfl, rfl⟩)
      obtain ⟨q, hnext, hq⟩ := next_of_operand hp hoperand
      have hscan : q.scan = ⟨false, s.phase.scan.opened⟩ := by
        rw [← Phase.scan_plain, hq, ← hstack]
        rfl
      have hclosing := Bracket.scanFrom_closing (Position.start.next 'p') s.phase.scan.opened
      have hrest : ∃ s', State.follow numeric { s with phase := q } _ = .ok s' ∧ _ :=
        follow_closing (by rw [hscan]) (by rw [hscan]; exact hclosing)
      obtain ⟨s', hfollow, hs'⟩ := hrest
      have htokens : (Source.ofText ("p" ++ Bracket.closing s.phase.scan.opened)).tokens =
          t :: Token.scanFrom (Position.start.next 'p') 0
            (Bracket.closing s.phase.scan.opened).toList := by
        rw [Source.tokens_ofText, String.toList_append]
        simp [Token.scanFrom, Bracket.munch_closing, t]
      refine ⟨"p" ++ Bracket.closing s.phase.scan.opened, s', ?_, hs'⟩
      rw [htokens, follow_cons, hnext]
      exact hfollow

end State

/-! ### The first fault -/

/-- Whether a sequence of tokens is a request. -/
def Derivable (numeric : Bool) (ts : List Token) : Prop :=
  ∃ is : Derivation.Items numeric, is.tokens = ts

/-- `t` is the first token that cannot be made good: what comes before it is the
beginning of a request, and with `t` it is the beginning of none.  The end of a text
is at fault if the text is only the beginning of a request. -/
def Source.FirstFault (numeric : Bool) (s : Source) (before : List Token) (t : Token) : Prop :=
  (∃ more : String, Derivable numeric (before ++ (Source.ofText more).tokens)) ∧
  ((∃ after, s.tokens = before ++ t :: after ∧
      ∀ more, ¬ Derivable numeric (before ++ t :: more)) ∨
    (s.tokens = before ∧ t = s.eof ∧ ¬ Derivable numeric before))

namespace State

lemma scan_of_follow {ts : List Token} {s s' : State} (h : s.follow numeric ts = .ok s') :
    s'.phase.scan = ts.foldl Scan.read s.phase.scan := by
  induction ts generalizing s with
  | nil => rw [← Except.ok.inj h]; rfl
  | cons t ts ih =>
      rw [follow_cons] at h
      cases hn : s.next numeric t with
      | error r => rw [hn] at h; cases h
      | ok s₁ =>
          rw [hn] at h
          rw [ih h, Phase.scan_of_next hn]
          rfl

lemma derivable_of_follow {ts : List Token} {s : State}
    (h : State.follow numeric {} ts = .ok s) (hs : s.phase.scan = ⟨false, []⟩) :
    Derivable numeric ts := by
  rcases s.phase.tree_cases with ⟨ha, -⟩ | ⟨-, b, bs, ho, -⟩ | ⟨-, -, g, hg⟩
  · rw [hs] at ha
    cases ha
  · rw [hs] at ho
    cases ho
  · obtain ⟨before, head, rest, hspans, rfl⟩ := spans_of_follow h
    have hclose : s.close (Source.eof ⟨[], .start⟩) = .ok (s.read ++ [⟨s.label, g⟩]) := by
      rw [close, hg]
    obtain ⟨is, his, -⟩ := hspans.exists_items hclose
    exact ⟨is, his⟩

/-- What has been read is the beginning of a request. -/
lemma exists_derivable {ts : List Token} {s : State} (h : State.follow numeric {} ts = .ok s) :
    ∃ more : String, Derivable numeric (ts ++ (Source.ofText more).tokens) := by
  obtain ⟨more, s', hfollow, hscan⟩ := exists_completion numeric s
  exact ⟨more, derivable_of_follow ((follow_append h _).trans hfollow) hscan⟩

/-- With a token that cannot be read, it is the beginning of none. -/
lemma not_derivable {ts : List Token} {t : Token} {s : State} {r : Reading}
    (h : State.follow numeric {} ts = .ok s) (hn : s.next numeric t = .error r)
    (more : List Token) : ¬ Derivable numeric (ts ++ t :: more) := by
  rintro ⟨is, his⟩
  have hread := is.ofSource_eq .start
  rw [his, Reading.ofSource, run_of_follow h, run, hn] at hread
  obtain rfl : r = ⟨is.propositions, none, none⟩ := hread
  rcases next_error_cases hn with ⟨rejection, -, hr⟩ | ⟨ps, -, hr⟩ <;>
    cases congrArg Reading.fault hr

/-- The reason why a proposition cannot end is the one that the scan shows, unless it
can. -/
lemma close_error {s : State} {t : Token} {r : Rejection} (h : s.close t = .error r) :
    r = ⟨s.phase.scan.cause, t⟩ := by
  rcases s.phase.tree_cases with ⟨ha, hf⟩ | ⟨ha, b, bs, ho, hf⟩ | ⟨-, -, g, hf⟩
  · rw [close, hf] at h
    rw [← Except.error.inj h, Scan.cause, ha]
  · rw [close, hf] at h
    rw [← Except.error.inj h, Scan.cause, ha, ho]
  · rw [close, hf] at h
    cases h

/-- Where a proposition can end, only the end of the text can be asked for. -/
lemma close_ok {s : State} {t : Token} {ps : List Proposition} (h : s.close t = .ok ps) :
    s.phase.scan.cause = .endExpected := by
  rcases s.phase.tree_cases with ⟨-, hf⟩ | ⟨-, b, bs, -, hf⟩ | ⟨ha, ho, -⟩
  · rw [close, hf] at h
    cases h
  · rw [close, hf] at h
    cases h
  · rw [Scan.cause, ha, ho]

end State

/-- A request is either read to its end, or up to its first fault. -/
lemma Reading.ofSource_cases (numeric : Bool) (source : Source) :
    (∃ is : Derivation.Items numeric, is.tokens = source.tokens ∧
      Reading.ofSource numeric source = ⟨is.propositions, none, none⟩) ∨
    ∃ before t s, source.FirstFault numeric before t ∧
      State.follow numeric {} before = .ok s ∧
      ((∃ r, s.close t = .error r ∧
          Reading.ofSource numeric source = ⟨s.read, s.label, some r⟩) ∨
        ∃ ps, s.close t = .ok ps ∧
          Reading.ofSource numeric source = ⟨ps, none, some ⟨.endExpected, t⟩⟩) := by
  rw [Reading.ofSource]
  rcases State.run_cases numeric {} source.tokens source.eof with
    ⟨s, hfollow, hrun⟩ | ⟨us, t, vs, s, r, htokens, hfollow, hnext, hrun⟩
  · rcases s.conclude_cases source.eof with ⟨r, hclose, hr⟩ | ⟨ps, hclose, hr⟩
    · refine .inr ⟨source.tokens, source.eof, s, ⟨State.exists_derivable hfollow, ?_⟩, hfollow,
        .inl ⟨r, hclose, hrun.trans hr⟩⟩
      refine .inr ⟨rfl, rfl, ?_⟩
      rintro ⟨is, his⟩
      have hread := is.ofSource_eq source.stop
      rw [his, Reading.ofSource, show (⟨source.tokens, source.stop⟩ : Source) = source from rfl,
        hrun, hr] at hread
      cases congrArg Reading.fault hread
    · obtain ⟨before, head, rest, hspans, htokens⟩ := State.spans_of_follow hfollow
      obtain ⟨is, his, rfl⟩ := hspans.exists_items hclose
      exact .inl ⟨is, his.trans htokens, hrun.trans hr⟩
  · refine .inr ⟨us, t, s, ⟨State.exists_derivable hfollow, ?_⟩, hfollow, ?_⟩
    · exact .inl ⟨vs, htokens, State.not_derivable hfollow hnext⟩
    · rw [hrun]
      exact State.next_error_cases hnext

/-- A request that is read to its end leaves nothing pending. -/
lemma Reading.ofSource_eq {source : Source} {ps : List Proposition}
    (h : (Reading.ofSource numeric source).result = .ok ps) :
    Reading.ofSource numeric source = ⟨ps, none, none⟩ := by
  rcases Reading.ofSource_cases numeric source with
    ⟨is, -, hread⟩ | ⟨before, t, s, -, -, ⟨r, -, hread⟩ | ⟨ps', -, hread⟩⟩
  · rw [hread] at h
    obtain rfl : is.propositions = ps := Except.ok.inj h
    exact hread
  · rw [hread] at h
    cases h
  · rw [hread] at h
    cases h

/-- **The first fault.** A text is rejected at the first token that cannot be made
good.  The cause is what the scan of the tokens before it shows: an operand is
missing, the innermost open bracket is not closed, and the sentence then names its
closing bracket, or something follows the last proposition. -/
theorem parse_error (numeric : Bool) (text : String) (r : Rejection)
    (h : Proposition.parse numeric text = .error r) :
    ∃ before, Source.FirstFault numeric (.ofText text) before r.token ∧
      r.cause = (Scan.ofTokens before).cause ∧
      ∀ b, r.cause = .closerExpected b →
        r.message = "Expected symbol '" ++ b.closer ++ "'" := by
  have hmessage : ∀ b, r.cause = .closerExpected b →
      r.message = "Expected symbol '" ++ b.closer ++ "'" := by
    intro b hb
    rw [Rejection.message, hb]
    rfl
  rw [Proposition.parse] at h
  rcases Reading.ofSource_cases numeric (.ofText text) with
    ⟨is, -, hread⟩ | ⟨before, t, s, hfault, hfollow, hstop⟩
  · rw [hread] at h
    cases h
  · have hscan : s.phase.scan = Scan.ofTokens before := State.scan_of_follow hfollow
    rcases hstop with ⟨r', hclose, hread⟩ | ⟨ps, hclose, hread⟩
    · rw [hread] at h
      obtain rfl : r' = r := Except.error.inj h
      have hr := State.close_error hclose
      rw [hscan] at hr
      refine ⟨before, ?_, ?_, hmessage⟩ <;> rw [hr]
      exact hfault
    · rw [hread] at h
      obtain rfl : ⟨.endExpected, t⟩ = r := Except.error.inj h
      exact ⟨before, hfault, by rw [← hscan, State.close_ok hclose], hmessage⟩

/-- A sign of definition inside brackets is where the bracket had to be closed. -/
theorem parse_error_assign_inside :
    ∃ r, Proposition.parse true "q, [(p = q)]" = .error r ∧
      ∃ before, Source.FirstFault true (.ofText "q, [(p = q)]") before r.token ∧
        r.cause = (Scan.ofTokens before).cause ∧
        ∀ b, r.cause = .closerExpected b →
          r.message = "Expected symbol '" ++ b.closer ++ "'" :=
  have h : Proposition.parse true "q, [(p = q)]" =
      .error ⟨.closerExpected .round, ⟨.assign, "=", ⟨1, 8, 7⟩⟩⟩ := by decide +kernel
  ⟨_, h, parse_error true _ _ h⟩

end Propositional
