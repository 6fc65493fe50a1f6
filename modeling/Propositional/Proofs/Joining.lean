/-
Texts joined at a comma.

* `Position.shift`, `Token.shift`, `Tree.shift`, `Proposition.shift`, `Rejection.shift`: what
  belongs to a text, seen from a longer one that ends with it.
* `Token.scanFrom_shift`: characters are cut alike wherever they begin.
* `Source.ofText_join`: a text with a comma in it is cut into the tokens of the two sides,
  with the comma between them.
* `State.run_prepend`: what was read before the current proposition does not matter.
* `Reading.result_join`: a comma at the top of a request ends a proposition that can end
  there, and is at fault where the end of the text would be.
* `Proposition.parse_join`: the propositions, or the fault, of two texts with a comma
  between them.
-/
import Propositional.Proofs.Coverage
import Propositional.Proofs.Printing

namespace Propositional

/-! ### Places seen from further ahead -/

/-- The place `q` of a text, where the text begins at `p` of a longer one.  A column counts
from `p` on the first line only. -/
def Position.shift (p q : Position) : Position where
  line := p.line + (q.line - 1)
  column := if q.line = 1 then p.column + (q.column - 1) else q.column
  offset := p.offset + q.offset

lemma Position.next_shift (p : Position) {q : Position} (hline : 1 ≤ q.line)
    (hcolumn : 1 ≤ q.column) (c : Char) : (p.shift q).next c = p.shift (q.next c) := by
  by_cases hc : c = '\n'
  · have hlater : q.line + 1 ≠ 1 := by omega
    simp only [next, shift, hc, if_true, if_neg hlater, mk.injEq, true_and]
    omega
  · simp only [next, shift, if_neg hc, mk.injEq, true_and]
    refine ⟨?_, by omega⟩
    split
    · omega
    · rfl

/-- Characters lead as far from a place as they lead from the beginning of a text. -/
lemma Position.advance_eq_shift (p : Position) (before : List Char) :
    p.advance before = p.shift (start.advance before) := by
  induction before using List.reverseRecOn with
  | nil => rfl
  | append_singleton before c ih =>
      have hline : 1 ≤ (behind before).line := Nat.le_add_right _ _
      have hcolumn : 1 ≤ (behind before).column := Nat.le_add_right _ _
      rw [← advance_start] at hline hcolumn
      rw [advance_append, advance_append, ih]
      exact p.next_shift hline hcolumn c

-- what stands on the second line of a part keeps its column
example : [Position.mk 1 2 1, Position.mk 2 3 6].map (Position.shift ⟨4, 7, 30⟩) =
    [⟨4, 8, 31⟩, ⟨5, 3, 36⟩] := by decide

/-- A token of a text that begins at `p`. -/
def Token.shift (p : Position) (t : Token) : Token := { t with start := p.shift t.start }

/-- A tree of a text that begins at `p`. -/
def Tree.shift (p : Position) : Tree → Tree
  | atom t => .atom (t.shift p)
  | neg f => .neg (f.shift p)
  | binary c l r => .binary c (l.shift p) (r.shift p)
  | group b f => .group b (f.shift p)

/-- A proposition of a text that begins at `p`. -/
def Proposition.shift (p : Position) (q : Proposition) : Proposition where
  label := q.label.map (Token.shift p)
  tree := q.tree.shift p

/-- A rejection of a text that begins at `p`. -/
def Rejection.shift (p : Position) (r : Rejection) : Rejection :=
  { r with token := r.token.shift p }

/-! ### The tokens -/

/-- Characters are cut alike wherever they begin. -/
lemma Token.scanFrom_shift (p : Position) (before : List Char) (n : ℕ) (cs : List Char) :
    scanFrom (p.advance before) n cs =
      (scanFrom (Position.start.advance before) n cs).map (Token.shift p) := by
  induction cs generalizing before n with
  | nil => cases n <;> rfl
  | cons c cs ih =>
      have hnext : ∀ q : Position, (q.advance before).next c = q.advance (before ++ [c]) := by
        intro q
        rw [Position.advance_append]
        rfl
      cases n with
      | succ n =>
          rw [scanFrom, scanFrom, hnext, hnext]
          exact ih (before ++ [c]) n
      | zero =>
          rw [scanFrom, scanFrom, hnext, hnext]
          obtain ⟨_ | kind, k⟩ := munch c cs
          · exact ih (before ++ [c]) k
          · dsimp only
            rw [ih (before ++ [c]) k, List.map_cons, Token.shift, ← p.advance_eq_shift before]

namespace Source

/-- A comma where a text ends. -/
def comma (s : Source) : Token := ⟨.comma, ",", s.stop⟩

/-- The place behind that comma. -/
def behindComma (s : Source) : Position := s.stop.next ','

/-- Two texts that are cut into tokens, with a comma between them. -/
def join (s t : Source) : Source where
  tokens := s.tokens ++ s.comma :: t.tokens.map (Token.shift s.behindComma)
  stop := s.behindComma.shift t.stop

/-- Where a comma is joined in, the text is cut. -/
lemma ofText_join (a b : String) : ofText (a ++ "," ++ b) = (ofText a).join (ofText b) := by
  have hsign : Token.IsSign ',' .comma := by decide +kernel
  have hbreaks : Text.breaks ',' = true := by decide +kernel
  have htext : (a ++ "," ++ b).toList = a.toList ++ ',' :: b.toList := by simp
  have hshift := Token.scanFrom_shift (ofText a).behindComma [] 0 b.toList
  have hbehind : (ofText a).behindComma = (Position.start.advance a.toList).next ',' := by
    rw [behindComma, stop_ofText]
  have htokens : (ofText (a ++ "," ++ b)).tokens = ((ofText a).join (ofText b)).tokens := by
    rw [join, comma, stop_ofText, tokens_ofText, tokens_ofText, tokens_ofText, htext,
      Token.scanFrom_append hbreaks hsign.1 .start (Nat.zero_le _), Token.scanFrom_sign hsign,
      ← hbehind]
    exact congrArg (fun ts => _ ++ _ :: ts) hshift
  have hstop : (ofText (a ++ "," ++ b)).stop = ((ofText a).join (ofText b)).stop := by
    rw [join, stop_ofText, stop_ofText, htext, Position.advance_append, Position.advance_cons,
      ← hbehind]
    exact Position.advance_eq_shift (ofText a).behindComma b.toList
  rw [Source.mk.injEq]
  exact ⟨htokens, hstop⟩

lemma eof_join (s t : Source) : (s.join t).eof = t.eof.shift s.behindComma := rfl

end Source

/-! ### What is read behind the comma -/

/-- The reading cannot tell where a text begins. -/
lemma Token.likeness_shift (p : Position) : Token.Likeness (fun t u => t.shift p = u) where
  kind := by rintro t _ rfl; rfl
  lexeme := by rintro t _ rfl -; rfl

/-- A tree that is read in step is the one that is moved. -/
lemma Tree.Rel.shift_eq {p : Position} {f g : Tree}
    (h : Tree.Rel (fun t u => t.shift p = u) f g) : f.shift p = g := by
  induction h with
  | atom h => exact congrArg Tree.atom h.1
  | neg h ih => exact congrArg Tree.neg ih
  | binary c hl hr ihl ihr => exact congrArg₂ (Tree.binary c) ihl ihr
  | group b h ih => exact congrArg (Tree.group b) ih

lemma Proposition.Rel.shift_eq {p : Position} {q r : Proposition}
    (h : Proposition.Rel (fun t u => t.shift p = u) q r) : q.shift p = r := by
  obtain ⟨label, f⟩ := q
  obtain ⟨label', g⟩ := r
  obtain ⟨hlabel, htree⟩ := h
  rw [Proposition.shift, htree.shift_eq]
  cases hlabel with
  | none => rfl
  | some ht => rw [← ht.1]; rfl

lemma Rejection.Rel.shift_eq {p : Position} {r r' : Rejection}
    (h : Rejection.Rel (fun t u => t.shift p = u) r r') : r.shift p = r' := by
  obtain ⟨cause, t⟩ := r
  obtain ⟨cause', t'⟩ := r'
  obtain ⟨rfl : cause = cause', rfl : t.shift p = t'⟩ := h
  rfl

lemma Reading.Rel.result {R : Token → Token → Prop} {r r' : Reading} (h : Reading.Rel R r r') :
    Except.Rel (Rejection.Rel R) (List.Forall₂ (Proposition.Rel R)) r.result r'.result := by
  obtain ⟨ps, pending, fault⟩ := r
  obtain ⟨qs, pending', fault'⟩ := r'
  obtain ⟨hps, -, hfault⟩ := h
  cases hfault with
  | none => exact .ok hps
  | some hr => exact .error hr

/-- What is read, or the fault that is met, in a text that begins at `p`. -/
def Reading.shifted (p : Position) :
    Except Rejection (List Proposition) → Except Rejection (List Proposition)
  | .ok qs => .ok (qs.map (Proposition.shift p))
  | .error e => .error (e.shift p)

/-- The tokens of a text are read alike wherever it begins. -/
lemma State.result_shift (numeric : Bool) (p : Position) (ts : List Token) (eof : Token) :
    (({} : State).run numeric (ts.map (Token.shift p)) (eof.shift p)).result =
      Reading.shifted p (({} : State).run numeric ts eof).result := by
  have htokens : List.Forall₂ (fun t u => t.shift p = u) ts (ts.map (Token.shift p)) :=
    List.forall₂_map_right_iff.mpr (List.forall₂_same.mpr fun t _ => rfl)
  have hrun : Reading.Rel (fun t u => t.shift p = u) (({} : State).run numeric ts eof)
      (({} : State).run numeric (ts.map (Token.shift p)) (eof.shift p)) :=
    run_rel (Token.likeness_shift p) numeric htokens ⟨.nil, .none, .start⟩ rfl
  have hresult := hrun.result
  generalize (State.run _ _ ts eof).result = x,
    (State.run _ _ (ts.map (Token.shift p)) (eof.shift p)).result = y at hresult ⊢
  cases hresult with
  | @ok qs rs hps =>
      have hmap : List.Forall₂ (· = ·) (qs.map (Proposition.shift p)) rs := by
        rw [List.forall₂_map_left_iff]
        exact hps.imp fun _ _ => Proposition.Rel.shift_eq
      rw [List.forall₂_eq_eq_eq] at hmap
      rw [Reading.shifted, hmap]
  | error hr => rw [Reading.shifted, hr.shift_eq]

/-! ### What was read before -/

/-- A request read in part, with some propositions in front of what was read. -/
def State.prepend (ps : List Proposition) (s : State) : State := { s with read := ps ++ s.read }

/-- What was read, with some propositions in front. -/
def Reading.prepend (ps : List Proposition) (r : Reading) : Reading :=
  { r with propositions := ps ++ r.propositions }

namespace State

variable {numeric : Bool} (ps : List Proposition)

/-- What was read before does not decide whether a token can be read. -/
lemma accept_prepend (s : State) (t : Token) :
    (s.prepend ps).accept numeric t = (s.accept numeric t).map (prepend ps) := by
  obtain ⟨read, label, phase⟩ := s
  rw [accept, accept, prepend]
  cases phase with
  | start | word =>
      dsimp only
      split
      · rfl
      · simp [Function.comp_def, prepend]
  | awaiting | complete => simp [Function.comp_def, prepend]

lemma close_prepend (s : State) (t : Token) :
    (s.prepend ps).close t = (s.close t).map (ps ++ ·) := by
  have hphase : (s.prepend ps).phase = s.phase := rfl
  rw [close, close, hphase]
  cases s.phase.tree with
  | ok f => exact congrArg Except.ok (List.append_assoc ps s.read _)
  | error cause => rfl

/-- Reading a token leaves alone what was read before. -/
lemma next_prepend (s : State) (t : Token) :
    (s.prepend ps).next numeric t =
      ((s.next numeric t).map (prepend ps)).mapError (Reading.prepend ps) := by
  rw [next, next, accept_prepend, close_prepend]
  cases s.accept numeric t with
  | some s' => rfl
  | none =>
      cases s.close t with
      | error r => rfl
      | ok qs =>
          by_cases hcomma : t.kind = .comma
          · simp [Except.map, Except.mapError, hcomma, prepend]
          · simp [Except.map, Except.mapError, hcomma, Reading.prepend]

lemma conclude_prepend (s : State) (eof : Token) :
    (s.prepend ps).conclude eof = (s.conclude eof).prepend ps := by
  rw [conclude, conclude, close_prepend]
  cases s.close eof <;> rfl

/-- So do all tokens. -/
lemma run_prepend (s : State) (ts : List Token) (eof : Token) :
    (s.prepend ps).run numeric ts eof = (s.run numeric ts eof).prepend ps := by
  induction ts generalizing s with
  | nil => exact s.conclude_prepend ps eof
  | cons t ts ih =>
      rw [run, run, next_prepend]
      cases s.next numeric t with
      | error r => rfl
      | ok s' => exact ih s'

end State

/-- The propositions in front come first in the result. -/
lemma Reading.result_prepend (ps : List Proposition) (r : Reading) :
    (r.prepend ps).result = r.result.map (ps ++ ·) := by
  obtain ⟨qs, pending, fault⟩ := r
  cases fault <;> rfl

/-! ### The comma -/

/-- Whether a proposition can end does not depend on the token that comes next. -/
lemma State.close_cases (s : State) :
    (∃ cause, ∀ t, s.close t = .error ⟨cause, t⟩) ∨ ∃ ps, ∀ t, s.close t = .ok ps := by
  rcases hf : s.phase.tree with cause | f
  · exact .inl ⟨cause, fun t => by rw [close, hf]⟩
  · exact .inr ⟨_, fun t => by rw [close, hf]⟩

/-- What is read of two texts with a comma between them.  If the first can end, the second
is read behind it.  If the first only lacks something at its end, the comma stands where
it should be.  And if the first has a fault within, the rest does not matter. -/
lemma Reading.result_join (numeric : Bool) (s t : Source) :
    (∃ ps, (ofSource numeric s).result = .ok ps ∧
      (ofSource numeric (s.join t)).result =
        (shifted s.behindComma (ofSource numeric t).result).map (ps ++ ·)) ∨
    (∃ cause, (ofSource numeric s).result = .error ⟨cause, s.eof⟩ ∧
      (ofSource numeric (s.join t)).result = .error ⟨cause, s.comma⟩) ∨
    ∃ e, e.token ∈ s.tokens ∧ (ofSource numeric s).result = .error e ∧
      (ofSource numeric (s.join t)).result = .error e := by
  rw [ofSource, ofSource, ofSource, Source.join]
  rcases State.run_cases numeric {} s.tokens s.eof with
    ⟨s', hfollow, hrun⟩ | ⟨us, u, vs, s', r, htokens, hfollow, hnext, hrun⟩
  · rw [hrun, State.run_of_follow hfollow, State.run]
    rcases s'.close_cases with ⟨cause, hclose⟩ | ⟨ps, hclose⟩
    · refine .inr (.inl ⟨cause, by rw [State.conclude, hclose]; rfl, ?_⟩)
      rw [State.next, State.accept_of_comma rfl, hclose]
      rfl
    · refine .inl ⟨ps, by rw [State.conclude, hclose]; rfl, ?_⟩
      have hprepend : ({ read := ps } : State) = State.prepend ps {} := by
        rw [State.prepend, List.append_nil]
      rw [State.next_of_comma rfl (hclose s.comma)]
      dsimp only
      rw [hprepend, State.run_prepend, Reading.result_prepend]
      exact congrArg (Except.map (ps ++ ·)) (State.result_shift numeric _ t.tokens t.eof)
  · refine .inr (.inr ?_)
    have hfault : ∀ more eof, State.run numeric {} (s.tokens ++ more) eof = r := by
      intro more eof
      rw [htokens, List.append_assoc, State.run_of_follow hfollow, List.cons_append, State.run,
        hnext]
    have hmem : u ∈ s.tokens := by
      rw [htokens]
      exact List.mem_append_right _ List.mem_cons_self
    rw [hrun, hfault]
    rcases State.next_error_cases hnext with ⟨e, hclose, rfl⟩ | ⟨ps, -, rfl⟩
    · have htoken : e.token = u := by rw [State.close_error hclose]
      exact ⟨e, htoken ▸ hmem, rfl, rfl⟩
    · exact ⟨_, hmem, rfl, rfl⟩

namespace Proposition

/-- **A comma joins requests.**  Two texts with a comma between them have the tokens of the
first, the comma, and the tokens of the second, seen from behind the comma.  They are read
if both are, as the propositions of the first and then those of the second.  A fault of the
first within its text remains; a fault at its end shows at the comma; and behind a first
text that is read, the fault is that of the second. -/
theorem parse_join (numeric : Bool) (a b : String) :
    (Source.ofText (a ++ "," ++ b)).toList =
      (Source.ofText a).tokens ++ (Source.ofText a).comma ::
        (Source.ofText b).toList.map (Token.shift (Source.ofText a).behindComma) ∧
    ((∃ rs, parse numeric (a ++ "," ++ b) = .ok rs) ↔
      (∃ ps, parse numeric a = .ok ps) ∧ ∃ qs, parse numeric b = .ok qs) ∧
    (∀ ps qs, parse numeric a = .ok ps → parse numeric b = .ok qs →
      parse numeric (a ++ "," ++ b) =
        .ok (ps ++ qs.map (shift (Source.ofText a).behindComma))) ∧
    (∀ e, parse numeric a = .error e → e.token.kind ≠ .eof →
      parse numeric (a ++ "," ++ b) = .error e) ∧
    (∀ e, parse numeric a = .error e → e.token.kind = .eof →
      parse numeric (a ++ "," ++ b) = .error ⟨e.cause, (Source.ofText a).comma⟩) ∧
    ∀ ps e, parse numeric a = .ok ps → parse numeric b = .error e →
      parse numeric (a ++ "," ++ b) = .error (e.shift (Source.ofText a).behindComma) := by
  have hpiece : ∀ t ∈ (Source.ofText a).tokens, t.kind ≠ .eof := by
    intro t ht
    exact (Token.isPiece_of_mem ht).kind_ne
  refine ⟨?_, ?_⟩
  · rw [Source.ofText_join, Source.toList, Source.toList, Source.eof_join, Source.join,
      List.map_append, List.map_singleton, List.append_assoc, List.cons_append]
  · rw [parse, parse, parse, Source.ofText_join]
    have hjoin := Reading.result_join numeric (Source.ofText a) (Source.ofText b)
    generalize (Reading.ofSource numeric ((Source.ofText a).join (Source.ofText b))).result = z,
      (Reading.ofSource numeric (Source.ofText a)).result = x,
      (Reading.ofSource numeric (Source.ofText b)).result = y at hjoin
    rcases hjoin with ⟨ps, rfl, rfl⟩ | ⟨cause, rfl, rfl⟩ | ⟨e, he, rfl, rfl⟩
    · cases y <;> simp [Reading.shifted, Except.map]
    · simp [Source.eof]
    · simp [hpiece _ he]

end Proposition

end Propositional
