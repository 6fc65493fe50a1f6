/-
The panel over a run of changes.

* `Panel.Change`: a text with its options.  `Panel.Change.result?` is the table or the failure
  that belongs to it, if the text is not blank.
* `Panel.Change.exists_display`: what a change shows depends on the locale of the session
  alone.
* `Session.follow_commands`: a change leaves the session as some commands do, so that
  `Session.Reflects` describes what is remembered.
* `Session.exists_displays`: the step carried through a run of changes.
* `Panel.independent`: every change shows what it shows in a new session.
-/
import Propositional.Proofs.Display

namespace Propositional

/-! ### Changes -/

/-- What the panel is changed to: a text, if there is one, and its options. -/
structure Panel.Change where
  text : Option String
  numeric : Setting
  ordered : Setting
  deriving DecidableEq, Repr

namespace Panel.Change

/-- What the panel holds at first. -/
def first (text : Option String) : Change := ⟨text, .bool true, .bool true⟩

/-- A change of the text or of the chosen options. -/
def ofChoices (text : Option String) (options : List String) : Change :=
  ⟨text, .bool (options.contains "numeric"), .bool (options.contains "ordered")⟩

/-- The text that reaches the session.  A blank one does not. -/
def input? (c : Change) : Option String := c.text.filter fun text => !isBlankText text

/-- The table of the text under the options, or the failure. -/
def result? (c : Change) : Option (Except Failure Table) :=
  c.input?.map (Table.ofText c.numeric.truthy c.ordered.truthy)

/-- The results of those of some changes that reach the session, in order. -/
def results (cs : List Change) : List (Except Failure Table) := cs.filterMap result?

/-- What the session is asked for. -/
def commands (c : Change) : List Session.Command :=
  match c.input? with
  | none => []
  | some input => [.setNumeric c.numeric.truthy, .setOrdered c.ordered, .compute input]

lemma results_commands (o : Options) (c : Change) : o.results c.commands = c.result?.toList := by
  rw [commands, result?]
  cases c.input? <;> rfl

lemma results_flatMap_commands (o : Options) (cs : List Change) :
    o.results (cs.flatMap commands) = results cs := by
  induction cs generalizing o with
  | nil => rfl
  | cons c cs ih =>
      rw [List.flatMap_cons, Options.results_append, results_commands, ih, results, results,
        List.filterMap_cons]
      cases c.result? <;> rfl

end Panel.Change

open Panel (Change)

namespace Session

variable [Digraph.Library ℕ] {s : Session} {c : Change} {cs : List Change} {locale : String}

/-! ### One change -/

/-- What the panel shows after a change, and the session after it. -/
def follow (s : Session) (c : Change) : Except Failure Display × Session :=
  s.present c.text c.numeric c.ordered

-- the panel at first and after each change
example (s : Session) (text : Option String) : Panel.initial s text = s.follow (.first text) := rfl

example (s : Session) (text : Option String) (options : List String) :
    Panel.update s text options = s.follow (.ofChoices text options) := rfl

lemma follow_of_none (h : c.input? = none) (s : Session) : s.follow c = (.ok .prompt, s) := by
  obtain ⟨text, numeric, ordered⟩ := c
  cases text with
  | none => rfl
  | some text =>
      have hblank : isBlankText text = true := by
        simpa [Change.input?] using h
      rw [follow, present, if_pos hblank]

/-- Any other text is a request under the options of the change.  It shows its table or its
rejection. -/
lemma follow_of_some {input : String} (h : c.input? = some input) (s : Session) :
    (s.follow c).2 =
        (((s.setMode c.numeric.truthy).setOrdered c.ordered.truthy).compute input).2 ∧
      ((∃ t, Table.ofText c.numeric.truthy c.ordered.truthy input = .ok t ∧
        (s.follow c).1 = Display.ofTable t (.forMode c.numeric.truthy s.locale)) ∨
      ∃ r, Table.ofText c.numeric.truthy c.ordered.truthy input = .error (.rejected r) ∧
        (s.follow c).1 = .ok (.rejection r)) := by
  obtain ⟨text, numeric, ordered⟩ := c
  rw [Change.input?, Option.filter_eq_some_iff] at h
  obtain ⟨rfl, hblank⟩ := h
  rw [follow, present, if_neg (by simpa using hblank)]
  rcases compute_cases ((s.setMode numeric.truthy).setOrdered ordered.truthy) input with
    ⟨t, log, ht, hs⟩ | ⟨r, log, hr, hs⟩ <;> rw [hs]
  · exact ⟨rfl, .inl ⟨t, ht, rfl⟩⟩
  · exact ⟨rfl, .inr ⟨r, hr, rfl⟩⟩

/-- A change leaves the session that its commands leave. -/
lemma follow_commands (s : Session) (c : Change) : (s.follow c).2 = s.after c.commands := by
  cases hinput : c.input? with
  | none => rw [follow_of_none hinput, Change.commands, hinput]; rfl
  | some input =>
      rw [(follow_of_some hinput s).1, Change.commands, hinput]
      exact (perform_of_text (c := .compute input) rfl).symm

/-- What a change shows depends on the locale of the session alone. -/
lemma exists_display [Digraph.LawfulLibrary ℕ] (locale : String) (c : Change) :
    ∃ d, ∀ s : Session, s.locale = locale → (s.follow c).1 = .ok d := by
  cases hinput : c.input? with
  | none => exact ⟨.prompt, fun s _ => by rw [follow_of_none hinput]⟩
  | some input =>
      have hcases := fun s => (follow_of_some hinput s).2
      rcases hcases (new true true false locale) with ⟨t, ht, -⟩ | ⟨r, hr, -⟩
      · obtain ⟨d, hd, -⟩ := Display.isTable_ofTable (.forMode c.numeric.truthy locale) ht
        refine ⟨d, fun s hs => ?_⟩
        rcases hcases s with ⟨t', ht', hshown⟩ | ⟨r, hr, -⟩
        · obtain rfl := Except.ok.inj (ht.symm.trans ht')
          rw [hshown, hs, hd]
        · cases ht.symm.trans hr
      · refine ⟨.rejection r, fun s _ => ?_⟩
        rcases hcases s with ⟨t, ht, -⟩ | ⟨r', hr', hshown⟩
        · cases hr.symm.trans ht
        · cases hr.symm.trans hr'
          exact hshown

lemma locale_follow (s : Session) (c : Change) : (s.follow c).2.locale = s.locale := by
  cases hinput : c.input? with
  | none => rw [follow_of_none hinput]
  | some input =>
      rw [(follow_of_some hinput s).1]
      rcases compute_cases ((s.setMode c.numeric.truthy).setOrdered c.ordered.truthy) input with
        ⟨t, log, -, hs⟩ | ⟨r, log, -, hs⟩ <;> rw [hs] <;> rfl

/-! ### A run of changes -/

/-- What the panel shows after each of some changes, and the session after them. -/
def followAll (s : Session) : List Change → List (Except Failure Display) × Session
  | [] => ([], s)
  | c :: cs =>
    let rest := (s.follow c).2.followAll cs
    ((s.follow c).1 :: rest.1, rest.2)

/-- Every change of a run shows what it shows in any session with the same locale, and the run
leaves the session that its commands leave. -/
lemma exists_displays [Digraph.LawfulLibrary ℕ] (s : Session) (cs : List Change) :
    ∃ displays : List Display,
      s.followAll cs = (displays.map .ok, s.after (cs.flatMap Change.commands)) ∧
      List.Forall₂ (fun c d => ∀ s' : Session, s'.locale = s.locale → (s'.follow c).1 = .ok d)
        cs displays := by
  induction cs generalizing s with
  | nil => exact ⟨[], rfl, .nil⟩
  | cons c cs ih =>
      obtain ⟨d, hd⟩ := exists_display s.locale c
      obtain ⟨displays, hrun, hshown⟩ := ih (s.follow c).2
      rw [locale_follow] at hshown
      refine ⟨d :: displays, ?_, .cons hd hshown⟩
      rw [followAll, hrun, hd s rfl, follow_commands, List.flatMap_cons, after, after, after,
        List.foldl_append]
      rfl

end Session

open Session in
/-- **Nothing is carried over from one change to the next.**  Whatever text a panel starts with
and whatever changes it is given, blank texts and rejected ones among them, each of them shows
what it shows in a new session with the same locale.  What the session remembers afterwards is
the number of rows of the last table, and the rejection of the last text that was not blank if
it was rejected. -/
theorem Panel.independent [Digraph.Library ℕ] [Digraph.LawfulLibrary ℕ]
    (numeric ordered verbose : Bool) (locale : String) (text : Option String)
    (changes : List Change) :
    ∃ displays s,
      (Session.new numeric ordered verbose locale).followAll (.first text :: changes) =
        (displays.map .ok, s) ∧
      List.Forall₂ (fun c d => ∀ numeric ordered verbose,
        ((Session.new numeric ordered verbose locale).follow c).1 = .ok d)
        (.first text :: changes) displays ∧
      s.rowCount = (((Change.results (.first text :: changes)).filterMap
        Except.toOption).getLast?.map Table.rows).getD 0 ∧
      s.lastError = (Change.results (.first text :: changes)).getLast?.bind rejection? := by
  obtain ⟨displays, hrun, hshown⟩ :=
    exists_displays (new numeric ordered verbose locale) (.first text :: changes)
  have hstart : start (.bool numeric) (.bool ordered) (.bool verbose) locale =
      .ok (new numeric ordered verbose locale) := rfl
  have hreflects := (reflects_start hstart).after
    ((Change.first text :: changes).flatMap Change.commands)
  rw [List.nil_append] at hreflects
  refine ⟨displays, _, hrun, ?_, ?_, ?_⟩
  · exact hshown.imp fun c d hd n o v => hd (new n o v locale) rfl
  · rw [hreflects.rowCount, Change.results_flatMap_commands]
  · rw [hreflects.lastError, Change.results_flatMap_commands]

open Session in
/-- A blank text, a table and a rejection, shown with the library that is given here. -/
theorem Panel.independent_three :
    ∃ changes : List Change, changes = [.ofChoices (some "p v q") ["numeric"],
        .ofChoices (some "p v") []] ∧ ∃ displays s,
      (Session.new true true false "").followAll (.first none :: changes) =
        (displays.map .ok, s) ∧
      List.Forall₂ (fun c d => ∀ numeric ordered verbose,
        ((Session.new numeric ordered verbose "").follow c).1 = .ok d)
        (.first none :: changes) displays ∧
      s.rowCount = (((Change.results (.first none :: changes)).filterMap
        Except.toOption).getLast?.map Table.rows).getD 0 ∧
      s.lastError = (Change.results (.first none :: changes)).getLast?.bind rejection? :=
  ⟨_, rfl, Panel.independent true true false "" none _⟩

end Propositional
