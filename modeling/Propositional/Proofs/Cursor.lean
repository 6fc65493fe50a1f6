/-
The cursor of a text, and the reading of a request that moves it.

* `Cursor.rest`: the tokens from the cursor on; `Cursor.rest_of_lt` and `Cursor.rest_of_le`
  say what one token on does to them.
* `Cursor.token_iterate_advance`: the cursor goes from token to token, and stays on the end of
  the text.
* `Cursor.restore?_of_source_eq`: wherever it has gone, it can go back.
* `Cursor.heading`: one token ahead tells whether an identifier is the name of a proposition.
  Where it is not, the cursor goes back.
* `State.run_start`: a reading that finds out about the name first does not go differently.
* `State.readFrom_eq`, `Reading.ofSource_eq_readFrom`: so the cursor reads what is read token
  by token.
-/
import Mathlib.Data.List.GetD
import Propositional.Proofs.Grammar.Steps
import Propositional.Token.Cursor

namespace Propositional

/-! ### Moving the cursor -/

namespace Cursor

variable {c d : Cursor}

/-- The tokens from the cursor on. -/
def rest (c : Cursor) : List Token := c.source.tokens.drop c.index

@[simp] lemma source_advance (c : Cursor) : c.advance.source = c.source := by
  rw [advance]
  split <;> rfl

lemma index_advance (c : Cursor) :
    c.advance.index = min (c.index + 1) c.source.tokens.length := by
  rw [advance]
  split
  · next h => exact (min_eq_left h).symm
  · next h => exact (le_antisymm c.index_le (not_lt.mp h)).trans (by omega)

/-- In front of the end the cursor is on the first of the tokens to come. -/
lemma rest_of_lt (h : c.index < c.source.tokens.length) :
    c.rest = c.token :: c.advance.rest := by
  have htoken : c.token = c.source.tokens[c.index] := List.getD_eq_getElem _ _ h
  rw [rest, List.drop_eq_getElem_cons h, htoken, advance, dif_pos h]
  rfl

/-- Otherwise it is on the end of the text, and no token is to come. -/
lemma rest_of_le (h : c.source.tokens.length ≤ c.index) :
    c.rest = [] ∧ c.token = c.source.eof ∧ c.advance = c := by
  refine ⟨List.drop_eq_nil_of_le h, ?_, dif_neg (not_lt.mpr h)⟩
  rw [token, List.getD_eq_default _ _ h]

lemma rest_eq_cons {t : Token} {ts : List Token} (h : c.rest = t :: ts) :
    c.token = t ∧ c.advance.rest = ts := by
  rcases lt_or_ge c.index c.source.tokens.length with hlt | hle
  · rw [rest_of_lt hlt] at h
    exact List.cons.inj h
  · rw [(rest_of_le hle).1] at h
    cases h

/-- The current token is the one of the cursor's index, the end of the text included. -/
lemma getElem?_index (c : Cursor) : c.source.toList[c.index]? = some c.token := by
  rw [Source.toList]
  rcases lt_or_ge c.index c.source.tokens.length with hlt | hle
  · have htoken : c.token = c.source.tokens[c.index] := List.getD_eq_getElem _ _ hlt
    rw [List.getElem?_append_left hlt, List.getElem?_eq_getElem hlt, htoken]
  · obtain ⟨-, htoken, -⟩ := rest_of_le hle
    have hindex : c.index = c.source.tokens.length := le_antisymm c.index_le hle
    rw [hindex, List.getElem?_append_right le_rfl, Nat.sub_self, htoken]
    rfl

lemma iterate_advance (c : Cursor) (k : ℕ) :
    (advance^[k] c).source = c.source ∧
      (advance^[k] c).index = min (c.index + k) c.source.tokens.length := by
  induction k with
  | zero => exact ⟨rfl, (min_eq_left c.index_le).symm⟩
  | succ k ih =>
      obtain ⟨hsource, hindex⟩ := ih
      rw [Function.iterate_succ_apply', source_advance, index_advance, hsource, hindex]
      exact ⟨rfl, by omega⟩

/-- **The cursor goes through the tokens one by one.**  After some steps from the first token it
is on the token of that number, and on the end of the text if there are no more. -/
theorem token_iterate_advance (text : String) (k : ℕ) :
    (Source.ofText text).toList[min k (Source.ofText text).tokens.length]? =
      some (advance^[k] (ofText text)).token := by
  obtain ⟨hsource, hindex⟩ := iterate_advance (ofText text) k
  have hcurrent := getElem?_index (advance^[k] (ofText text))
  rw [hsource, hindex] at hcurrent
  rwa [ofText, Nat.zero_add] at hcurrent

/-- Wherever the cursor has gone in a text, it can go back to where it was. -/
lemma restore?_of_source_eq (h : d.source = c.source) : d.restore? c.index = some c := by
  obtain ⟨source, i, hi⟩ := c
  obtain ⟨source', j, hj⟩ := d
  obtain rfl : source' = source := h
  exact dif_pos hi

/-! ### Names -/

/-- The name of the proposition that begins at the cursor, and the cursor in front of its
formula.  An identifier is a name if the token behind it says so, for which the cursor goes one
token on.  If it does not, the cursor goes back to the place that was noted. -/
def heading (c : Cursor) : Option Token × Cursor :=
  if c.token.kind = .ident then
    if c.advance.token.kind = .assign then (some c.token, c.advance.advance)
    else (none, (c.advance.restore? c.index).getD c.advance)
  else (none, c)

/-- A name and the sign behind it are passed over, or nothing is. -/
lemma heading_cases (c : Cursor) :
    (c.heading = (none, c) ∧
      ∀ t u ts, c.rest = t :: u :: ts → t.kind = .ident → u.kind ≠ .assign) ∨
    ∃ t u d, c.heading = (some t, d) ∧ d.source = c.source ∧ c.rest = t :: u :: d.rest ∧
      t.kind = .ident ∧ u.kind = .assign := by
  -- the end of the text is neither an identifier nor the sign behind a name
  have hlt : ∀ {d : Cursor}, d.token.kind ≠ .eof → d.index < d.source.tokens.length := by
    intro d hd
    by_contra hend
    exact hd (congrArg Token.kind (rest_of_le (not_lt.mp hend)).2.1)
  by_cases hident : c.token.kind = .ident
  · have hrest := rest_of_lt (hlt (d := c) (by rw [hident]; exact Token.Kind.noConfusion))
    by_cases hassign : c.advance.token.kind = .assign
    · have hnext := rest_of_lt
        (hlt (d := c.advance) (by rw [hassign]; exact Token.Kind.noConfusion))
      refine .inr ⟨c.token, c.advance.token, c.advance.advance, ?_, ?_, ?_, hident, hassign⟩
      · rw [heading, if_pos hident, if_pos hassign]
      · rw [source_advance, source_advance]
      · rw [hrest, hnext]
    · refine .inl ⟨?_, fun t u ts h _ hu => hassign ?_⟩
      · rw [heading, if_pos hident, if_neg hassign,
          restore?_of_source_eq (source_advance c), Option.getD_some]
      · rw [(rest_eq_cons (rest_eq_cons h).2).1, hu]
  · refine .inl ⟨if_neg hident, fun t u ts h ht _ => hident ?_⟩
    rw [(rest_eq_cons h).1, ht]

end Cursor

/-! ### Reading with the cursor -/

namespace State

variable {numeric : Bool} {s : State} {c : Cursor}

/-- Where no name is to come, an operand has to come. -/
lemma run_start (hs : s.phase = .start) {ts : List Token}
    (h : ∀ t u us, ts = t :: u :: us → t.kind = .ident → u.kind ≠ .assign) (eof : Token) :
    ({ s with phase := .awaiting [] } : State).run numeric ts eof = s.run numeric ts eof := by
  obtain ⟨read, label, phase⟩ := s
  obtain rfl : phase = .start := hs
  cases ts with
  | nil => rfl
  | cons t us =>
      by_cases hident : t.kind = .ident
      · -- the identifier is an atom, and the token behind it does not make it a name
        have hatom : (State.mk read label (.awaiting [])).next numeric t =
            .ok ⟨read, label, .complete [] (.atom t)⟩ := by
          simp [next, accept, Phase.operand, hident]
        have hword : (State.mk read label .start).next numeric t =
            .ok ⟨read, label, .word t⟩ := by
          simp [next, accept, hident]
        rw [run_of_next hatom, run_of_next hword]
        cases us with
        | nil => rfl
        | cons u us =>
            have hu : u.kind ≠ .assign := h t u us rfl hident
            have haccept : (State.mk read label (.complete [] (.atom t))).accept numeric u =
                (State.mk read label (.word t)).accept numeric u := by
              simp [accept, hu]
            rw [run, run, next, next, haccept]
            rfl
      · have haccept : (State.mk read label (.awaiting [])).accept numeric t =
            (State.mk read label .start).accept numeric t := by
          simp [accept, hident]
        rw [run, run, next, next, haccept]
        rfl

/-- At the start of a proposition the cursor is moved over its name, if it has one.  Its formula
comes next. -/
def settle (s : State) (c : Cursor) : State × Cursor :=
  if s.phase = .start then
    ({ s with label := c.heading.1.or s.label, phase := .awaiting [] }, c.heading.2)
  else (s, c)

/-- The cursor goes over tokens of the same text. -/
lemma settle_cursor (s : State) (c : Cursor) :
    (s.settle c).2.source = c.source ∧ (s.settle c).2.rest.length ≤ c.rest.length := by
  rw [settle]
  split
  · rcases c.heading_cases with ⟨heq, -⟩ | ⟨t, u, d, heq, hsource, hrest, -⟩
    · rw [heq]
      exact ⟨rfl, le_rfl⟩
    · rw [heq, hrest, List.length_cons, List.length_cons]
      exact ⟨hsource, (Nat.le_succ _).trans (Nat.le_succ _)⟩
  · exact ⟨rfl, le_rfl⟩

/-- What it has gone over is read in the same way token by token. -/
lemma run_settle (s : State) (c : Cursor) (eof : Token) :
    (s.settle c).1.run numeric (s.settle c).2.rest eof = s.run numeric c.rest eof := by
  rw [settle]
  split
  · next hs =>
      rcases c.heading_cases with ⟨heq, hnone⟩ | ⟨t, u, d, heq, -, hrest, ht, hu⟩
      · rw [heq]
        exact run_start hs hnone eof
      · obtain ⟨read, label, phase⟩ := s
        obtain rfl : phase = .start := hs
        have hword : (State.mk read label .start).next numeric t =
            .ok ⟨read, label, .word t⟩ := by
          simp [next, accept, ht]
        have hname : (State.mk read label (.word t)).next numeric u =
            .ok ⟨read, some t, .awaiting []⟩ := by
          simp [next, accept, hu]
        rw [heq, hrest, run_of_next hword, run_of_next hname]
        rfl
  · rfl

lemma rest_settle_lt (h : (s.settle c).2.index < c.source.tokens.length) :
    (s.settle c).2.rest = (s.settle c).2.token :: (s.settle c).2.advance.rest ∧
      (s.settle c).2.advance.rest.length < c.rest.length := by
  obtain ⟨hsource, hle⟩ := settle_cursor s c
  have hrest := Cursor.rest_of_lt (c := (s.settle c).2) (by rwa [hsource])
  refine ⟨hrest, ?_⟩
  rw [hrest, List.length_cons] at hle
  exact hle

/-- Reads on with a cursor, which is always on the token to be read. -/
def readFrom (numeric : Bool) (s : State) (c : Cursor) : Reading :=
  if (s.settle c).2.index < c.source.tokens.length then
    match (s.settle c).1.next numeric (s.settle c).2.token with
    | .ok s' => s'.readFrom numeric (s.settle c).2.advance
    | .error reading => reading
  else (s.settle c).1.conclude (s.settle c).2.token
termination_by c.rest.length
decreasing_by exact (rest_settle_lt ‹_›).2

/-- The cursor reads what is read token by token. -/
lemma readFrom_eq (numeric : Bool) (s : State) (c : Cursor) :
    s.readFrom numeric c = s.run numeric c.rest c.source.eof := by
  induction hlength : c.rest.length using Nat.strong_induction_on generalizing s c with
  | _ n ih =>
      rw [readFrom, ← run_settle s c]
      by_cases h : (s.settle c).2.index < c.source.tokens.length
      · obtain ⟨hrest, hlt⟩ := rest_settle_lt h
        have hsource : (s.settle c).2.advance.source = c.source := by
          rw [Cursor.source_advance, (settle_cursor s c).1]
        rw [if_pos h, hrest]
        cases hnext : (s.settle c).1.next numeric (s.settle c).2.token with
        | error reading => exact (run_of_next_error hnext _ _).symm
        | ok s' =>
            rw [run_of_next hnext]
            refine (ih _ (hlength ▸ hlt) s' _ rfl).trans ?_
            rw [hsource]
      · have hsource := (settle_cursor s c).1
        rw [← hsource] at h
        obtain ⟨hrest, htoken, -⟩ := Cursor.rest_of_le (not_lt.mp h)
        rw [hsource] at h
        rw [if_neg h, hrest, htoken, hsource]
        rfl

end State

/-- **A request is read with a cursor that goes back.**  Where the reading notes its place at the
beginning of each proposition, looks one token ahead for a name and goes back if there is none,
it finds the same propositions, and the same fault, as going from token to token. -/
theorem Reading.ofSource_eq_readFrom (numeric : Bool) (text : String) :
    ofSource numeric (.ofText text) = ({} : State).readFrom numeric (.ofText text) := by
  rw [State.readFrom_eq]
  rfl

end Propositional
