/-
Names registered while a text is read, and after it has been read.

* `Scope.enterAll`, `Request.ofReading`: the names of what has been read, one
  proposition after the other; then the name of an unfinished proposition; then the
  fault of syntax.
* `Scope.enter_of_taken`: a name that is taken before its formula is read is still
  taken, in the same way, after the atoms of the formula have been registered.
* `Request.ofReading_of_taken`: so the rest of a text is of no account behind a name
  that is taken.
* `Draft.Settled`: the scope of a draft is that of what has been read, and the name of
  the current proposition is free; `Draft.Settled.close`, `Draft.run_eq` are the step
  and the run.
* `Request.ofSource_eq`: registering while reading gives what registering afterwards
  gives.
-/
import Propositional.Proofs.Grammar.Steps
import Propositional.Request

namespace Propositional

variable {numeric : Bool}

/-! ### Registering afterwards -/

/-- Registers the propositions of a list in order. -/
def Scope.enterAll (s : Scope) : List Proposition → Except Rejection Scope
  | [] => .ok s
  | p :: rest =>
    match s.enter p with
    | .ok s' => s'.enterAll rest
    | .error r => .error r

/-- The request that has been read, if its names fit together and nothing was left
over. -/
def Request.ofReading (numeric : Bool) (reading : Reading) : Except Rejection Request :=
  match ({} : Scope).enterAll reading.propositions with
  | .error r => .error r
  | .ok scope =>
    match reading.pending.elim (.ok ()) scope.check, reading.fault with
    | .error r, _ => .error r
    | .ok _, some r => .error r
    | .ok _, none => .ok ⟨numeric, reading.propositions, scope⟩

namespace Scope

variable {s s' : Scope} {t : Token} {r : Rejection} {ps : List Proposition}

lemma enterAll_append (h : s.enterAll ps = .ok s') (qs : List Proposition) :
    s.enterAll (ps ++ qs) = s'.enterAll qs := by
  induction ps generalizing s with
  | nil =>
      cases h
      rfl
  | cons p ps ih =>
      rw [enterAll] at h
      rw [List.cons_append, enterAll]
      cases hp : s.enter p with
      | ok s₁ =>
          rw [hp] at h
          exact ih h
      | error r => rw [hp] at h; cases h

/-- What cannot be registered is not registered with more behind it. -/
lemma enterAll_append_of_error (h : s.enterAll ps = .error r) (qs : List Proposition) :
    s.enterAll (ps ++ qs) = .error r := by
  induction ps generalizing s with
  | nil => cases h
  | cons p ps ih =>
      rw [enterAll] at h
      rw [List.cons_append, enterAll]
      cases hp : s.enter p with
      | ok s₁ =>
          rw [hp] at h
          exact ih h
      | error r' => rw [hp] at h; exact h

lemma enterAll_singleton (s : Scope) (p : Proposition) : s.enterAll [p] = s.enter p := by
  rw [enterAll]
  cases s.enter p <;> rfl

/-- Registering an atom leaves the names that are taken as they are. -/
lemma check_addSimple_of_taken (h : s.check t = .error r) (n : String) :
    (s.addSimple n).2.check t = .error r := by
  have hcompound : (s.addSimple n).2.isCompound t.lexeme = s.isCompound t.lexeme := by
    rw [addSimple]
    split <;> rfl
  have hsimple : s.isSimple t.lexeme = true → (s.addSimple n).2.isSimple t.lexeme = true := by
    rw [addSimple]
    split
    · exact id
    · simp only [isSimple, List.map_append, List.contains_iff_mem, List.mem_append]
      exact .inl
  rw [check] at h ⊢
  rw [hcompound]
  split at h
  · next hc => rw [if_pos hc, h]
  · next hc =>
      split at h
      · next hs => rw [if_neg hc, if_pos (hsimple hs), h]
      · cases h

/-- A name that is taken before its formula is read is taken afterwards. -/
lemma enter_of_taken (h : s.check t = .error r) (f : Tree) :
    s.enter ⟨some t, f⟩ = .error r := by
  have hatoms : ∀ (ns : List String) (s : Scope), s.check t = .error r →
      (ns.foldl (fun s n => (s.addSimple n).2) s).check t = .error r := by
    intro ns
    induction ns with
    | nil => exact fun _ h => h
    | cons n ns ih => exact fun _ h => ih _ (check_addSimple_of_taken h n)
  exact congrArg (Except.map _) (hatoms f.formula.atoms s h)

end Scope

/-! ### What a reading has got -/

lemma State.close_eq_ok {s : State} {t : Token} {ps : List Proposition}
    (h : s.close t = .ok ps) : ∃ f, ps = s.read ++ [⟨s.label, f⟩] := by
  rw [close] at h
  split at h
  · next f hf => exact ⟨f, (Except.ok.inj h).symm⟩
  · cases h

lemma State.read_prefix_of_close {s : State} {t : Token} {ps : List Proposition}
    (h : s.close t = .ok ps) : s.read <+: ps := by
  obtain ⟨f, rfl⟩ := close_eq_ok h
  exact List.prefix_append _ _

lemma State.read_prefix_of_next {s s' : State} {t : Token} (h : s.next numeric t = .ok s') :
    s.read <+: s'.read := by
  obtain ⟨-, -, rfl⟩ | ⟨-, p, -, -, rfl⟩ | ⟨-, -, p, -, -, rfl⟩ | ⟨w, -, -, rfl⟩ |
    ⟨ps, hps, -, rfl⟩ := next_cases h
  case inr.inr.inr.inr => exact read_prefix_of_close hps
  all_goals exact List.prefix_rfl

/-- What has been read to its end stays read. -/
lemma State.read_prefix (s : State) (ts : List Token) (eof : Token) :
    s.read <+: (s.run numeric ts eof).propositions := by
  induction ts generalizing s with
  | nil =>
      rw [run]
      obtain ⟨r, -, h⟩ | ⟨ps, hps, h⟩ := s.conclude_cases eof <;> rw [h]
      exact read_prefix_of_close hps
  | cons t ts ih =>
      cases hn : s.next numeric t with
      | error reading =>
          rw [run_of_next_error hn]
          obtain ⟨r, -, rfl⟩ | ⟨ps, hps, rfl⟩ := next_error_cases hn
          · exact List.prefix_rfl
          · exact read_prefix_of_close hps
      | ok s' =>
          rw [run_of_next hn]
          exact (read_prefix_of_next hn).trans (ih s')

namespace Request

variable {reading : Reading} {r : Rejection} {ps : List Proposition} {scope : Scope}

/-- A clash in what was read first decides. -/
lemma ofReading_of_error (h : ({} : Scope).enterAll ps = .error r)
    (hps : ps <+: reading.propositions) : ofReading numeric reading = .error r := by
  obtain ⟨qs, hqs⟩ := hps
  rw [ofReading, ← hqs, Scope.enterAll_append_of_error h]

/-- A fault of syntax decides if the names are all right. -/
lemma ofReading_of_fault {label : Option Token} (h : ({} : Scope).enterAll ps = .ok scope)
    (hlabel : ∀ t, label = some t → scope.check t = .ok ()) (r : Rejection) :
    ofReading numeric ⟨ps, label, some r⟩ = .error r := by
  rw [ofReading, h]
  cases label with
  | none => rfl
  | some t => simp only [Option.elim_some, hlabel t rfl]

/-- The name of an unfinished proposition comes before its fault of syntax. -/
lemma ofReading_of_pending {t : Token} (h : ({} : Scope).enterAll ps = .ok scope)
    (ht : scope.check t = .error r) (fault : Option Rejection) :
    ofReading numeric ⟨ps, some t, fault⟩ = .error r := by
  rw [ofReading, h]
  simp only [Option.elim_some, ht]

/-- Whatever comes behind a name that is taken, the request is rejected for that name. -/
lemma ofReading_of_taken (s : State) {w : Token} (hread : ({} : Scope).enterAll s.read = .ok scope)
    (hlabel : s.label = some w) (hplain : s.phase.plain = s.phase)
    (htaken : scope.check w = .error r) (ts : List Token) (eof : Token) :
    ofReading numeric (s.run numeric ts eof) = .error r := by
  -- the proposition cannot be registered once it has ended
  have hclose : ∀ {s : State} {t ps}, ({} : Scope).enterAll s.read = .ok scope →
      s.label = some w → s.close t = .ok ps → ({} : Scope).enterAll ps = .error r := by
    intro s t ps hread hlabel h
    obtain ⟨f, rfl⟩ := State.close_eq_ok h
    rw [Scope.enterAll_append hread, Scope.enterAll_singleton, hlabel]
    exact Scope.enter_of_taken htaken f
  induction ts generalizing s with
  | nil =>
      rw [State.run]
      obtain ⟨r', -, h⟩ | ⟨ps, hps, h⟩ := s.conclude_cases eof <;> rw [h]
      · rw [hlabel]
        exact ofReading_of_pending hread htaken _
      · exact ofReading_of_error (hclose hread hlabel hps) List.prefix_rfl
  | cons t ts ih =>
      cases hn : s.next numeric t with
      | error reading =>
          rw [State.run_of_next_error hn]
          obtain ⟨r', -, rfl⟩ | ⟨ps, hps, rfl⟩ := State.next_error_cases hn
          · rw [hlabel]
            exact ofReading_of_pending hread htaken _
          · exact ofReading_of_error (hclose hread hlabel hps) List.prefix_rfl
      | ok s' =>
          rw [State.run_of_next hn]
          obtain ⟨hstart, -, -⟩ | ⟨_, p, -, hp, rfl⟩ | ⟨_, _, p, -, hp, rfl⟩ | ⟨v, hword, -, -⟩ |
            ⟨ps, hps, -, rfl⟩ := State.next_cases hn
          · rw [hstart] at hplain
            cases hplain
          · exact ih { s with phase := p } hread hlabel (Phase.plain_of_operand hp)
          · exact ih { s with phase := p } hread hlabel (Phase.plain_of_continuation hp)
          · rw [hword] at hplain
            cases hplain
          · exact ofReading_of_error (hclose hread hlabel hps)
              (State.read_prefix { read := ps } ts eof)

end Request

/-! ### Registering while reading -/

namespace Draft

/-- The request that a draft has become. -/
def request (numeric : Bool) (d : Draft) : Request := ⟨numeric, d.state.read, d.scope⟩

/-- A draft whose scope knows what has been read.  The current proposition, if it has a
name, has a free one, and it is past the sign behind the name. -/
structure Settled (d : Draft) : Prop where
  entered : ({} : Scope).enterAll d.state.read = .ok d.scope
  free : ∀ t, d.state.label = some t → d.scope.check t = .ok ()
  plain : d.state.label.isSome = true → d.state.phase.plain = d.state.phase

lemma settled_empty : Settled {} := ⟨rfl, nofun, nofun⟩

/-- What a token does that is taken up by the current proposition: it goes on with its
formula, or it makes a name of the word in front. -/
lemma accept_cases {d : Draft} {t : Token} {s : State} (h : d.state.accept numeric t = some s) :
    (d.checkName t = .ok () ∧ s.read = d.state.read ∧ s.label = d.state.label ∧
      (d.state.phase.plain = d.state.phase → s.phase.plain = s.phase)) ∨
    ∃ w, d.checkName t = d.scope.check w ∧
      s = { d.state with label := some w, phase := .awaiting [] } := by
  obtain ⟨⟨read, label, phase⟩, scope⟩ := d
  rw [State.accept] at h
  cases phase with
  | start =>
      dsimp only at h
      split at h
      · cases h
        exact .inl ⟨rfl, rfl, rfl, Phase.noConfusion⟩
      · obtain ⟨p, -, rfl⟩ := Option.map_eq_some_iff.mp h
        exact .inl ⟨rfl, rfl, rfl, Phase.noConfusion⟩
  | word w =>
      dsimp only at h
      split at h
      · next ht =>
          cases h
          exact .inr ⟨w, if_pos ht, rfl⟩
      · next ht =>
          obtain ⟨p, -, rfl⟩ := Option.map_eq_some_iff.mp h
          exact .inl ⟨if_neg ht, rfl, rfl, Phase.noConfusion⟩
  | awaiting stack =>
      obtain ⟨p, hp, rfl⟩ := Option.map_eq_some_iff.mp h
      exact .inl ⟨rfl, rfl, rfl, fun _ => Phase.plain_of_operand hp⟩
  | complete stack f =>
      obtain ⟨p, hp, rfl⟩ := Option.map_eq_some_iff.mp h
      exact .inl ⟨rfl, rfl, rfl, fun _ => Phase.plain_of_continuation hp⟩

namespace Settled

variable {d : Draft} {t : Token}

/-- The end of a proposition: there is no formula; or there is one and it cannot be
registered; or the draft goes on behind it. -/
lemma close (h : d.Settled) (t : Token) :
    (∃ r, d.close t = .error r ∧ d.state.close t = .error r) ∨
    (∃ ps r, d.close t = .error r ∧ d.state.close t = .ok ps ∧
      ({} : Scope).enterAll ps = .error r) ∨
    ∃ ps scope, d.close t = .ok ⟨{ read := ps }, scope⟩ ∧ d.state.close t = .ok ps ∧
      (⟨{ read := ps }, scope⟩ : Draft).Settled := by
  rw [Draft.close, State.close]
  cases d.state.phase.tree with
  | error cause => exact .inl ⟨_, rfl, rfl⟩
  | ok f =>
      have henter := Scope.enterAll_append h.entered [⟨d.state.label, f⟩]
      rw [Scope.enterAll_singleton] at henter
      dsimp only
      cases hp : d.scope.enter ⟨d.state.label, f⟩ with
      | error r => exact .inr (.inl ⟨_, r, rfl, rfl, henter.trans hp⟩)
      | ok scope => exact .inr (.inr ⟨_, scope, rfl, rfl, henter.trans hp, nofun, nofun⟩)

/-- An accepted request is what its reading gives. -/
lemma ofReading_eq (h : d.Settled) :
    Request.ofReading numeric ⟨d.state.read, none, none⟩ = .ok (d.request numeric) := by
  rw [Request.ofReading, h.entered]
  rfl

end Settled

/-- The rest of a text, registered while it is read and registered afterwards. -/
lemma run_eq {d : Draft} (h : d.Settled) (ts : List Token) (eof : Token) :
    (d.run numeric ts eof).map (request numeric) =
      Request.ofReading numeric (d.state.run numeric ts eof) := by
  induction ts generalizing d with
  | nil =>
      rw [run, State.run, State.conclude]
      obtain ⟨r, hd, hs⟩ | ⟨ps, r, hd, hs, hps⟩ | ⟨ps, scope, hd, hs, hsettled⟩ := h.close eof <;>
        rw [hd, hs]
      · exact (Request.ofReading_of_fault h.entered h.free r).symm
      · exact (Request.ofReading_of_error hps List.prefix_rfl).symm
      · exact hsettled.ofReading_eq.symm
  | cons t ts ih =>
      rw [run, State.run, next, State.next]
      cases haccept : d.state.accept numeric t with
      | some s =>
          dsimp only
          rcases accept_cases haccept with ⟨hcheck, hread, hlabel, hplain⟩ | ⟨w, hcheck, rfl⟩
          · rw [hcheck]
            refine ih ⟨hread ▸ h.entered, fun t ht => h.free t (hlabel ▸ ht), fun hsome => ?_⟩
            exact hplain (h.plain (hlabel ▸ hsome))
          · rw [hcheck]
            cases hw : d.scope.check w with
            | error r =>
                symm
                exact Request.ofReading_of_taken
                  { d.state with label := some w, phase := .awaiting [] } h.entered rfl rfl hw ts eof
            | ok => exact ih ⟨h.entered, fun t ht => Option.some.inj ht ▸ hw, fun _ => rfl⟩
      | none =>
          dsimp only
          obtain ⟨r, hd, hs⟩ | ⟨ps, r, hd, hs, hps⟩ | ⟨ps, scope, hd, hs, hsettled⟩ := h.close t <;>
            rw [hd, hs]
          · exact (Request.ofReading_of_fault h.entered h.free r).symm
          · by_cases hcomma : t.kind = .comma
            · simp only [if_pos hcomma]
              exact (Request.ofReading_of_error hps (State.read_prefix { read := ps } ts eof)).symm
            · simp only [if_neg hcomma]
              exact (Request.ofReading_of_error hps List.prefix_rfl).symm
          · by_cases hcomma : t.kind = .comma
            · simp only [if_pos hcomma]
              exact ih hsettled
            · simp only [if_neg hcomma]
              exact (Request.ofReading_of_fault hsettled.entered hsettled.free _).symm

end Draft

/-- **Registering while reading.**  A request whose names are checked and registered as it
is read gets the same answer as one that is read as far as possible first: the first
clash of what was read to its end, else the name of the proposition that was begun, else
the fault of syntax. -/
theorem Request.ofSource_eq (numeric : Bool) (source : Source) :
    ofSource numeric source = ofReading numeric (Reading.ofSource numeric source) :=
  Draft.run_eq Draft.settled_empty source.tokens source.eof

end Propositional
