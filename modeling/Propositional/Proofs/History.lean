/-
What a session remembers of its commands.

* `Session.compute_cases`: a request has its table or is rejected, and what the session keeps
  of it.
* `Options.after`, `Options.results`: the options that a list of commands leaves in force, and
  the results of its requests, each under the options in force at its time.
* `Session.Replies`, `Session.Serves`: the reply that belongs to a command, and a session that
  gives it.
* `Session.Reflects`: what a session holds after some commands; `Session.Reflects.perform` is
  the step for one more, and `Session.Reflects.after` the run.
* `Session.history`: every session reflects its commands, and serves the next one.
-/
import Propositional.Proofs.Columns
import Propositional.Proofs.Drawing.Grid
import Propositional.Session

namespace Propositional

/-! ### Requests -/

lemma Table.ofText_eq_ok_iff {numeric ordered : Bool} {text : String} {r : Request} {t : Table}
    (h : Request.ofText numeric text = .ok r) :
    Table.ofText numeric ordered text = .ok t ↔ r.table ordered = .ok t := by
  rw [Table.ofText, h]
  dsimp only
  cases r.table ordered with
  | error f => constructor <;> intro ht <;> cases ht
  | ok t' => rw [Except.ok.injEq, Except.ok.injEq]

/-- A request has its table or is rejected.  The session keeps the rejection, or the number of
rows. -/
lemma Session.compute_cases (s : Session) (text : String) :
    (∃ t log, Table.ofText s.numeric s.ordered text = .ok t ∧
      s.compute text =
        (.ok ⟨.ok t, s.glyphs, log⟩, { s with lastError := none, rowCount := t.rows })) ∨
    ∃ r log, Table.ofText s.numeric s.ordered text = .error (.rejected r) ∧
      s.compute text = (.ok ⟨.error r, {}, log⟩, { s with lastError := some r }) := by
  cases hr : Request.ofText s.numeric text with
  | error r => exact .inr ⟨r, _, Table.ofText_of_error hr s.ordered, by rw [compute, hr]⟩
  | ok r =>
      obtain ⟨-, -, e, htable, -⟩ := Request.table_of_ok hr s.ordered
      refine .inl ⟨_, s.tell r.summary, htable, ?_⟩
      rw [compute, hr]
      dsimp only
      rw [(Table.ofText_eq_ok_iff hr).mp htable]

/-! ### Options in force -/

/-- The options of a session. -/
structure Options where
  numeric : Bool
  ordered : Bool
  verbose : Bool
  deriving DecidableEq, Repr

namespace Session.Command

/-- The mode that a command assigns. -/
def mode? : Command → Option Bool
  | setNumeric (.bool b) => some b
  | _ => none

/-- The order of the rows that a command assigns. -/
def order? : Command → Option Bool
  | setOrdered v => some v.truthy
  | _ => none

/-- Whether progress is told, where a command assigns that. -/
def verbosity? : Command → Option Bool
  | setVerbose v => some v.truthy
  | _ => none

/-- The text of a request. -/
def text? : Command → Option String
  | compute text | table text | grid text => some text
  | _ => none

end Session.Command

open Session (Command)

namespace Options

variable {o : Options} {c : Command} {cs ds : List Command}

/-- The options in force after some commands: those that were assigned last. -/
def after (o : Options) (cs : List Command) : Options where
  numeric := (cs.filterMap Command.mode?).getLast?.getD o.numeric
  ordered := (cs.filterMap Command.order?).getLast?.getD o.ordered
  verbose := (cs.filterMap Command.verbosity?).getLast?.getD o.verbose

/-- The result of a request under the options in force: the table of its text, or the
failure. -/
def result? (o : Options) (c : Command) : Option (Except Failure Table) :=
  c.text?.map fun text => Table.ofText o.numeric o.ordered text

/-- The results of the requests among some commands, each under the options in force at its
time. -/
def results (o : Options) : List Command → List (Except Failure Table)
  | [] => []
  | c :: cs => (o.result? c).toList ++ (o.after [c]).results cs

/-- The options that are assigned later count. -/
lemma after_append : o.after (cs ++ ds) = (o.after cs).after ds := by
  simp only [after, List.filterMap_append, List.getLast?_append, Option.getD_or]

/-- Later requests are made under the options that were left in force. -/
lemma results_append : o.results (cs ++ ds) = o.results cs ++ (o.after cs).results ds := by
  induction cs generalizing o with
  | nil => rfl
  | cons d cs ih =>
      have hafter : (o.after [d]).after cs = o.after (d :: cs) := after_append.symm
      rw [List.cons_append, results, results, ih, hafter, List.append_assoc]

/-- So is the last request. -/
lemma results_append_singleton :
    o.results (cs ++ [c]) = o.results cs ++ ((o.after cs).result? c).toList := by
  rw [results_append, results, results, List.append_nil]

lemma after_of_text {text : String} (h : c.text? = some text) : o.after [c] = o := by
  cases c with
  | compute _ | table _ | grid _ => rfl
  | _ => cases h

end Options

/-! ### What a session holds -/

/-- The rejection that a result is. -/
def rejection? : Except Failure Table → Option Rejection
  | .error (.rejected r) => some r
  | _ => none

namespace Session

variable {o : Options} {locale : String} {cs ds : List Command} {c : Command} {s : Session}

/-- The options of a session. -/
def options (s : Session) : Options := ⟨s.numeric, s.ordered, s.verbose⟩

/-- A session after some commands. -/
def after (s : Session) (cs : List Command) : Session := cs.foldl (fun s c => (s.perform c).2) s

/-- A session that began with the given options, and was given some commands. -/
structure Reflects (o : Options) (locale : String) (cs : List Command) (s : Session) : Prop where
  /-- The options are those that were assigned last. -/
  options : s.options = o.after cs
  locale_eq : s.locale = locale
  /-- The glyphs are those of the mode. -/
  glyphs : s.glyphs = .forMode s.numeric locale
  /-- The number of rows is that of the last table. -/
  rowCount : s.rowCount = (((o.results cs).filterMap Except.toOption).getLast?.map Table.rows).getD 0
  /-- The rejection is that of the last request, if it was rejected. -/
  lastError : s.lastError = (o.results cs).getLast?.bind rejection?
  /-- Every request had its table or was rejected. -/
  decided : ∀ x ∈ o.results cs, (∃ t, x = .ok t) ∨ ∃ r, x = .error (.rejected r)

lemma perform_of_text {text : String} (h : c.text? = some text) :
    (s.perform c).2 = (s.compute text).2 := by
  have hrequest : ∀ view, (s.request text view).2 = (s.compute text).2 := by
    intro view
    rw [request]
    rcases s.compute text with ⟨_ | a, s'⟩
    · rfl
    · dsimp only
      cases view a <;> rfl
  cases c with
  | compute text' | table text' | grid text' =>
      cases h
      exact hrequest _
  | _ => cases h

/-- A command that is no request leaves the memory of the requests. -/
lemma perform_of_not_text (h : c.text? = none) :
    (s.perform c).2.rowCount = s.rowCount ∧ (s.perform c).2.lastError = s.lastError := by
  cases c with
  | setNumeric v => cases v <;> exact ⟨rfl, rfl⟩
  | setOrdered v | setVerbose v => exact ⟨rfl, rfl⟩
  | _ => cases h

/-- A command leaves the options that it assigns, with the glyphs of the mode. -/
lemma options_perform (hglyphs : s.glyphs = .forMode s.numeric s.locale) :
    (s.perform c).2.options = s.options.after [c] ∧ (s.perform c).2.locale = s.locale ∧
      (s.perform c).2.glyphs = .forMode (s.perform c).2.numeric s.locale := by
  cases htext : c.text? with
  | some text =>
      rw [perform_of_text htext, Options.after_of_text htext]
      rcases compute_cases s text with ⟨t, log, -, hs⟩ | ⟨r, log, -, hs⟩ <;> rw [hs] <;>
        exact ⟨rfl, rfl, hglyphs⟩
  | none =>
      cases c with
      | setNumeric v =>
          cases v with
          | bool b => exact ⟨rfl, rfl, rfl⟩
          | _ => exact ⟨rfl, rfl, hglyphs⟩
      | setOrdered v | setVerbose v => exact ⟨rfl, rfl, hglyphs⟩
      | _ => cases htext

/-- One more command is reflected too. -/
lemma Reflects.perform (h : Reflects o locale cs s) (c : Command) :
    Reflects o locale (cs ++ [c]) (s.perform c).2 := by
  obtain ⟨hoptions, hlocale, hglyphs⟩ := options_perform (c := c) (h.locale_eq ▸ h.glyphs)
  rw [h.locale_eq] at hlocale hglyphs
  have hafter : (s.perform c).2.options = o.after (cs ++ [c]) := by
    rw [hoptions, h.options, Options.after_append]
  have hresults : o.results (cs ++ [c]) =
      o.results cs ++ (c.text?.map fun text => Table.ofText s.numeric s.ordered text).toList := by
    rw [Options.results_append_singleton, ← h.options]
    rfl
  cases htext : c.text? with
  | none =>
      obtain ⟨hrows, herror⟩ := perform_of_not_text (s := s) htext
      rw [htext, Option.map_none, Option.toList_none, List.append_nil] at hresults
      refine ⟨hafter, hlocale, hglyphs, ?_, ?_, ?_⟩
      · rw [hrows, h.rowCount, hresults]
      · rw [herror, h.lastError, hresults]
      · exact hresults ▸ h.decided
  | some text =>
      have hstate := perform_of_text (s := s) htext
      rw [htext, Option.map_some, Option.toList_some] at hresults
      rcases compute_cases s text with ⟨t, log, htable, hs⟩ | ⟨r, log, hrejected, hs⟩
      · rw [htable] at hresults
        rw [hs] at hstate
        refine ⟨hafter, hlocale, hglyphs, ?_, ?_, ?_⟩
        · rw [hstate, hresults, List.filterMap_append]
          simp [Except.toOption]
        · rw [hstate, hresults, List.getLast?_concat]
          rfl
        · rw [hresults, List.forall_mem_append, List.forall_mem_singleton]
          exact ⟨h.decided, .inl ⟨t, rfl⟩⟩
      · rw [hrejected] at hresults
        rw [hs] at hstate
        refine ⟨hafter, hlocale, hglyphs, ?_, ?_, ?_⟩
        · -- the number of rows is not changed
          rw [hstate, hresults, List.filterMap_append, h.rowCount]
          simp [Except.toOption]
        · rw [hstate, hresults, List.getLast?_concat]
          rfl
        · rw [hresults, List.forall_mem_append, List.forall_mem_singleton]
          exact ⟨h.decided, .inr ⟨r, rfl⟩⟩

lemma Reflects.after (h : Reflects o locale cs s) (ds : List Command) :
    Reflects o locale (cs ++ ds) (s.after ds) := by
  induction ds generalizing cs s with
  | nil => exact (List.append_nil cs).symm ▸ h
  | cons d ds ih =>
      rw [List.append_cons]
      exact ih (h.perform d)

/-! ### What a session replies -/

/-- The reply to a command.  A request is answered with its table or its rejection; the grid
is empty for a rejection only. -/
inductive Replies (s : Session) : Command → Except Failure Reply → Prop
  | answer {text t a} (htable : Table.ofText s.numeric s.ordered text = .ok t)
      (houtcome : a.outcome = .ok t) (hglyphs : a.glyphs = s.glyphs) :
      Replies s (.compute text) (.ok (.answer a))
  | rejection {text r a} (hrejected : Table.ofText s.numeric s.ordered text = .error (.rejected r))
      (houtcome : a.outcome = .error r) (hglyphs : a.glyphs = {}) :
      Replies s (.compute text) (.ok (.answer a))
  | table {text t} (htable : Table.ofText s.numeric s.ordered text = .ok t) :
      Replies s (.table text) (.ok (.table (some t)))
  | noTable {text r} (hrejected : Table.ofText s.numeric s.ordered text = .error (.rejected r)) :
      Replies s (.table text) (.ok (.table none))
  | grid {text t lines} (htable : Table.ofText s.numeric s.ordered text = .ok t)
      (hgrid : t.grid s.glyphs = .ok lines) (hne : lines ≠ "") :
      Replies s (.grid text) (.ok (.grid lines))
  | noGrid {text r} (hrejected : Table.ofText s.numeric s.ordered text = .error (.rejected r)) :
      Replies s (.grid text) (.ok (.grid ""))
  | mode {b} : Replies s (.setNumeric (.bool b)) (.ok .done)
  | noMode {v} (h : ∀ b, v ≠ .bool b) :
      Replies s (.setNumeric v) (.error (.notBoolean v.typeName))
  | order {v} : Replies s (.setOrdered v) (.ok .done)
  | verbosity {v} : Replies s (.setVerbose v) (.ok .done)

/-- What is asked of the answer to a request, where it can be given, is the reply. -/
lemma request_cases (s : Session) (text : String) :
    (∃ t a, Table.ofText s.numeric s.ordered text = .ok t ∧ a.outcome = .ok t ∧
      a.glyphs = s.glyphs ∧
        ∀ view reply, view a = .ok reply → (s.request text view).1.reply = .ok reply) ∨
    ∃ r a, Table.ofText s.numeric s.ordered text = .error (.rejected r) ∧ a.outcome = .error r ∧
      a.glyphs = {} ∧
        ∀ view reply, view a = .ok reply → (s.request text view).1.reply = .ok reply := by
  rcases compute_cases s text with ⟨t, log, htable, hs⟩ | ⟨r, log, hrejected, hs⟩
  · refine .inl ⟨t, ⟨.ok t, s.glyphs, log⟩, htable, rfl, rfl, fun view reply hview => ?_⟩
    rw [request, hs]
    dsimp only
    rw [hview]
  · refine .inr ⟨r, ⟨.error r, {}, log⟩, hrejected, rfl, rfl, fun view reply hview => ?_⟩
    rw [request, hs]
    dsimp only
    rw [hview]

lemma replies_perform (s : Session) (c : Command) : s.Replies c (s.perform c).1.reply := by
  cases c with
  | compute text =>
      rcases request_cases s text with
        ⟨t, a, htable, ha, hglyphs, hview⟩ | ⟨r, a, hr, ha, hglyphs, hview⟩
      · rw [perform, hview _ (.answer a) rfl]
        exact .answer htable ha hglyphs
      · rw [perform, hview _ (.answer a) rfl]
        exact .rejection hr ha hglyphs
  | table text =>
      rcases request_cases s text with ⟨t, a, htable, ha, -, hview⟩ | ⟨r, a, hr, ha, -, hview⟩
      · rw [perform, hview _ (.table (some t)) (by rw [Answer.table, ha]; rfl)]
        exact .table htable
      · rw [perform, hview _ (.table none) (by rw [Answer.table, ha]; rfl)]
        exact .noTable hr
  | grid text =>
      rcases request_cases s text with
        ⟨t, a, htable, ha, hglyphs, hview⟩ | ⟨r, a, hr, ha, -, hview⟩
      · obtain ⟨lines, hgrid, hne⟩ :=
          Table.exists_grid (fun c hc => (Table.size_of_ok htable c hc).ge) s.glyphs
        have hlines : a.grid = .ok lines := by
          rw [Answer.grid, ha, hglyphs]
          exact hgrid
        rw [perform, hview _ (.grid lines) (by rw [hlines]; rfl)]
        exact .grid htable hgrid hne
      · rw [perform, hview _ (.grid "") (by rw [Answer.grid, ha]; rfl)]
        exact .noGrid hr
  | setNumeric v =>
      cases v with
      | bool b => exact .mode
      | _ => exact .noMode nofun
  | setOrdered v => exact .order
  | setVerbose v => exact .verbosity

/-- A command that fails changes nothing. -/
lemma perform_of_error {f : Failure} (h : (s.perform c).1.reply = .error f) :
    (s.perform c).2 = s := by
  have hreply := replies_perform s c
  rw [h] at hreply
  cases hreply with
  | @noMode v hv =>
      cases v with
      | bool b => exact absurd rfl (hv b)
      | _ => rfl

/-- A session that carries out a command as it should. -/
structure Serves (s : Session) (c : Command) : Prop where
  reply : s.Replies c (s.perform c).1.reply
  /-- A request changes no option. -/
  request : ∀ text, c.text? = some text →
    (s.perform c).2.options = s.options ∧ (s.perform c).2.glyphs = s.glyphs ∧
      (s.perform c).2.locale = s.locale
  /-- A command that fails changes nothing at all. -/
  failure : ∀ f, (s.perform c).1.reply = .error f → (s.perform c).2 = s

lemma serves (s : Session) (c : Command) : s.Serves c := by
  refine ⟨replies_perform s c, fun text htext => ?_, fun f => perform_of_error⟩
  rw [perform_of_text htext]
  rcases compute_cases s text with ⟨t, log, -, hs⟩ | ⟨r, log, -, hs⟩ <;> rw [hs] <;>
    exact ⟨rfl, rfl, rfl⟩

/-- A new session reflects the options that it was given. -/
lemma reflects_start {numeric ordered verbose : Setting}
    (h : start numeric ordered verbose locale = .ok s) :
    Reflects ⟨numeric.truthy, ordered.truthy, verbose.truthy⟩ locale [] s := by
  cases numeric with
  | bool b =>
      obtain rfl := Except.ok.inj h
      exact ⟨rfl, rfl, rfl, rfl, rfl, fun x hx => absurd hx List.not_mem_nil⟩
  | _ => cases h

/-- **A session reflects its history.** Whatever commands a new session was given, its mode,
its glyphs and its other options are those that were assigned last, its number of rows is
that of the last table and its rejection that of the last request.  It serves the next
command: a request does not fail, and gets its table or its rejection under the options in
force; a mode that is no truth value is refused. -/
theorem history {numeric ordered verbose : Setting}
    (h : start numeric ordered verbose locale = .ok s) (cs : List Command) :
    Reflects ⟨numeric.truthy, ordered.truthy, verbose.truthy⟩ locale cs (s.after cs) ∧
      ∀ c, (s.after cs).Serves c :=
  ⟨(reflects_start h).after cs, fun c => serves (s.after cs) c⟩

/-- A session in Spanish letters is asked for a table, then for numbers, for a mode that is
none and for the grid of an unfinished text. -/
theorem history_letters :
    ∃ s, start (.bool false) (.integer 1) .null "es_ES" = .ok s ∧
      Reflects ⟨false, true, false⟩ "es_ES"
        [.table "p v q", .setNumeric true, .setNumeric (.integer 0), .grid "p v"]
        (s.after [.table "p v q", .setNumeric true, .setNumeric (.integer 0), .grid "p v"]) ∧
      ∀ c, (s.after
        [.table "p v q", .setNumeric true, .setNumeric (.integer 0), .grid "p v"]).Serves c :=
  have h : start (.bool false) (.integer 1) .null "es_ES" = .ok (new false true false "es_ES") :=
    rfl
  ⟨_, h, history h _⟩

/-- The rejected request leaves the number of rows. -/
example : (new false true false "es_ES").after
    [.table "p v q", .setNumeric true, .setNumeric (.integer 0), .grid "p v"] =
      { locale := "es_ES", numeric := true, glyphs := ⟨"1", "0"⟩, ordered := true, verbose := false,
        lastError := some ⟨.operandExpected, ⟨.eof, "", ⟨1, 4, 3⟩⟩⟩, rowCount := 4 } := by
  decide +kernel

end Session

end Propositional
