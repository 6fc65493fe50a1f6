/-
What a scope makes of the calls that register names and look them up.

* `Scope.Call`, `Scope.perform`: the calls one by one, each with its reply and the scope that
  it leaves; `Scope.after` is a run of them.
* `Scope.Answers`, `Scope.answers_perform`: what each call does.
* `Scope.Apart`: every name is there once, on one side; `Scope.Answers.apart` is the step.
* `Scope.Answers.grows`, `Scope.Answers.waits`: names keep their places, and new ones come
  without a vector.
* `Scope.Registers`: what holds after every run.
* `Scope.enterAll_run`: the propositions of a request are registered by such a run.
* `Compound.gather_reserves`: the names that are generated for the compounds of a request.
* `Scope.registration`: the names of a scope, and those of every request, stay apart.
-/
import Propositional.Proofs.Progress

namespace Propositional

namespace Scope

/-! ### Names -/

/-- The names of the simple propositions, in the order of their registration. -/
def simpleNames (s : Scope) : List String := s.simple.map Prod.fst

/-- The names of the compound propositions, in the order of their registration. -/
def compoundNames (s : Scope) : List String := s.compound.map Prod.fst

section Names

variable {s : Scope} {n : String}

lemma isSimple_iff : s.isSimple n = true ↔ n ∈ s.simpleNames := List.contains_iff_mem

lemma isCompound_iff : s.isCompound n = true ↔ n ∈ s.compoundNames := List.contains_iff_mem

lemma knows_iff : s.knows n = true ↔ n ∈ s.simpleNames ∨ n ∈ s.compoundNames := by
  rw [knows, Bool.or_eq_true, isSimple_iff, isCompound_iff]

/-- The enumeration leaves the names of the simple propositions as they are. -/
lemma simpleNames_enumerate (numeric : Bool) :
    (s.enumerate numeric).simpleNames = s.simpleNames := by
  rw [simpleNames, simpleNames, enumerate, List.map_map]
  rfl

/-- Every simple proposition has a vector over all rows after the enumeration. -/
lemma exists_bits_enumerate (numeric : Bool) {e : String × Option Bits}
    (he : e ∈ (s.enumerate numeric).simple) :
    ∃ bits, e.2 = some bits ∧ bits.size = 2 ^ s.simpleNames.length := by
  obtain ⟨⟨n, v⟩, hmem, rfl⟩ := List.mem_map.mp he
  have hn : n ∈ s.sortedNames := mem_sortNames.mpr (List.mem_map_of_mem hmem)
  obtain ⟨bits, hbits, hsize⟩ := Bits.lookup_enumerate numeric hn
  rw [sortedNames, length_sortNames] at hsize
  exact ⟨bits, hbits, hsize⟩

lemma vector_cases (s : Scope) (n : String) :
    (∃ v, s.vector n = .ok v ∧ (n, v) ∈ s.simple ++ s.compound) ∨
      s.vector n = .error (.unknownName n) ∧ n ∉ s.simpleNames ∧ n ∉ s.compoundNames := by
  rw [vector]
  cases hsimple : s.simple.lookup n with
  | some v => exact .inl ⟨v, rfl, List.mem_append_left _ (Entries.mem_of_lookup hsimple)⟩
  | none =>
      cases hcompound : s.compound.lookup n with
      | some v => exact .inl ⟨v, rfl, List.mem_append_right _ (Entries.mem_of_lookup hcompound)⟩
      | none =>
          exact .inr ⟨rfl, Entries.lookup_eq_none_iff.mp hsimple,
            Entries.lookup_eq_none_iff.mp hcompound⟩

end Names

/-! ### Calls -/

/-- A call on a scope. -/
inductive Call where
  | addSimple (name : String)
  | check (t : Token)
  | declare (t : Token)
  | enumerate (numeric : Bool)
  | knows (name : String)
  | sortedNames
  | vector (name : String)
  deriving DecidableEq, Repr

/-- The token whose name a call would define. -/
def Call.token? : Call → Option Token
  | check t | declare t => some t
  | _ => none

/-- What a call gives back. -/
inductive Reply where
  | truth (b : Bool)
  | done
  | rejected (r : Rejection)
  | rows (rows : ℕ)
  | names (names : List String)
  | vector (bits : Option Bits)
  | failed (f : Fault)
  deriving DecidableEq, Repr

/-- Carries out a call. -/
def perform (s : Scope) : Call → Reply × Scope
  | .addSimple name => (.truth (s.addSimple name).1, (s.addSimple name).2)
  | .check t =>
    match s.check t with
    | .ok () => (.done, s)
    | .error r => (.rejected r, s)
  | .declare t =>
    match s.declare t with
    | .ok s' => (.done, s')
    | .error r => (.rejected r, s)
  | .enumerate numeric => (.rows s.rows, s.enumerate numeric)
  | .knows name => (.truth (s.knows name), s)
  | .sortedNames => (.names s.sortedNames, s)
  | .vector name =>
    match s.vector name with
    | .ok bits => (.vector bits, s)
    | .error f => (.failed f, s)

/-- The scope after some calls. -/
def after (s : Scope) (cs : List Call) : Scope := cs.foldl (fun s c => (s.perform c).2) s

/-- The reply to a call, and the scope that it leaves. -/
inductive Answers (s : Scope) : Call → Reply → Scope → Prop
  | added {n} (hsimple : n ∉ s.simpleNames) (hcompound : n ∉ s.compoundNames) :
      Answers s (.addSimple n) (.truth true) { s with simple := s.simple ++ [(n, none)] }
  | present {n} (h : n ∈ s.simpleNames ∨ n ∈ s.compoundNames) :
      Answers s (.addSimple n) (.truth false) s
  -- a name that cannot be defined is sought among the compound ones first
  | defined {c t} (hc : c.token? = some t) (h : t.lexeme ∈ s.compoundNames) :
      Answers s c (.rejected ⟨.alreadyDefined t.lexeme, t⟩) s
  | simple {c t} (hc : c.token? = some t) (hcompound : t.lexeme ∉ s.compoundNames)
      (h : t.lexeme ∈ s.simpleNames) : Answers s c (.rejected ⟨.alreadySimple t.lexeme, t⟩) s
  | free {t} (hsimple : t.lexeme ∉ s.simpleNames) (hcompound : t.lexeme ∉ s.compoundNames) :
      Answers s (.check t) .done s
  | reserved {t} (hsimple : t.lexeme ∉ s.simpleNames) (hcompound : t.lexeme ∉ s.compoundNames) :
      Answers s (.declare t) .done { s with compound := s.compound ++ [(t.lexeme, none)] }
  | enumerated {numeric s'} (compound : s'.compound = s.compound)
      (names : s'.simpleNames = s.simpleNames)
      (vectors : ∀ e ∈ s'.simple,
        ∃ bits, e.2 = some bits ∧ bits.size = 2 ^ s.simpleNames.length) :
      Answers s (.enumerate numeric) (.rows (2 ^ s.simpleNames.length)) s'
  | known {n b} (h : b = true ↔ n ∈ s.simpleNames ∨ n ∈ s.compoundNames) :
      Answers s (.knows n) (.truth b) s
  | names {ns} (hperm : ns.Perm s.simpleNames) (hsorted : ns.Pairwise (· ≤ ·)) :
      Answers s .sortedNames (.names ns) s
  | vector {n bits} (h : (n, bits) ∈ s.simple ++ s.compound) :
      Answers s (.vector n) (.vector bits) s
  | unknown {n} (hsimple : n ∉ s.simpleNames) (hcompound : n ∉ s.compoundNames) :
      Answers s (.vector n) (.failed (.unknownName n)) s

/-- Whether a name is free, and the fault if it is not. -/
lemma check_cases (s : Scope) (t : Token) :
    (t.lexeme ∈ s.compoundNames ∧ s.check t = .error ⟨.alreadyDefined t.lexeme, t⟩) ∨
    (t.lexeme ∉ s.compoundNames ∧ t.lexeme ∈ s.simpleNames ∧
      s.check t = .error ⟨.alreadySimple t.lexeme, t⟩) ∨
    (t.lexeme ∉ s.simpleNames ∧ t.lexeme ∉ s.compoundNames ∧ s.check t = .ok ()) := by
  rw [check]
  by_cases hcompound : s.isCompound t.lexeme = true
  · exact .inl ⟨isCompound_iff.mp hcompound, if_pos hcompound⟩
  · have hnot := mt isCompound_iff.mpr hcompound
    rw [if_neg hcompound]
    by_cases hsimple : s.isSimple t.lexeme = true
    · exact .inr (.inl ⟨hnot, isSimple_iff.mp hsimple, if_pos hsimple⟩)
    · exact .inr (.inr ⟨mt isSimple_iff.mpr hsimple, hnot, if_neg hsimple⟩)

/-- Every call is answered. -/
lemma answers_perform (s : Scope) (c : Call) : s.Answers c (s.perform c).1 (s.perform c).2 := by
  cases c with
  | addSimple n =>
      rw [perform, addSimple]
      by_cases hn : s.knows n = true
      · rw [if_pos hn]
        exact .present (knows_iff.mp hn)
      · rw [if_neg hn]
        rw [knows_iff, not_or] at hn
        exact .added hn.1 hn.2
  | check t =>
      rw [perform]
      obtain ⟨h, hcheck⟩ | ⟨hnot, h, hcheck⟩ | ⟨hsimple, hcompound, hcheck⟩ := s.check_cases t <;>
        rw [hcheck]
      · exact .defined rfl h
      · exact .simple rfl hnot h
      · exact .free hsimple hcompound
  | declare t =>
      rw [perform, declare]
      obtain ⟨h, hcheck⟩ | ⟨hnot, h, hcheck⟩ | ⟨hsimple, hcompound, hcheck⟩ := s.check_cases t <;>
        rw [hcheck]
      · exact .defined rfl h
      · exact .simple rfl hnot h
      · exact .reserved hsimple hcompound
  | enumerate numeric =>
      have hrows : s.rows = 2 ^ s.simpleNames.length := by
        rw [rows, simpleNames, List.length_map]
        rfl
      rw [perform, hrows]
      exact .enumerated rfl (simpleNames_enumerate numeric) fun e => exists_bits_enumerate numeric
  | knows n => exact .known knows_iff
  | sortedNames =>
      rw [perform, sortedNames, sortNames_eq]
      exact .names (List.perm_insertionSort _ _) (List.pairwise_insertionSort _ _)
  | vector n =>
      rw [perform]
      rcases s.vector_cases n with ⟨v, hv, hmem⟩ | ⟨hunknown, hsimple, hcompound⟩
      · rw [hv]
        exact .vector hmem
      · rw [hunknown]
        exact .unknown hsimple hcompound

/-! ### Steps -/

variable {s s' : Scope} {n : String} {t : Token}

/-- Every name is there once, on one side. -/
structure Apart (s : Scope) : Prop where
  simple : s.simpleNames.Nodup
  compound : s.compoundNames.Nodup
  disjoint : ∀ n ∈ s.simpleNames, n ∉ s.compoundNames

lemma apart_empty : ({} : Scope).Apart :=
  ⟨List.nodup_nil, List.nodup_nil, List.forall_mem_nil _⟩

/-- A scope in which names are reserved in order. -/
def reserveAll (s : Scope) (ns : List String) : Scope :=
  { s with compound := s.compound ++ ns.map fun n => (n, none) }

lemma compoundNames_reserveAll (s : Scope) (ns : List String) :
    (s.reserveAll ns).compoundNames = s.compoundNames ++ ns := by
  rw [compoundNames, reserveAll, List.map_append, List.map_map]
  exact congrArg (s.compoundNames ++ ·) (List.map_id ns)

/-- Reserving names that are new and different keeps the names apart. -/
lemma Apart.reserveAll (h : s.Apart) {ns : List String} (hns : ns.Nodup)
    (hnew : ∀ n ∈ ns, n ∉ s.simpleNames ∧ n ∉ s.compoundNames) : (s.reserveAll ns).Apart := by
  refine ⟨h.simple, ?_, fun n hn => ?_⟩ <;> rw [compoundNames_reserveAll]
  · exact h.compound.append hns fun n hn hmem => (hnew n hmem).2 hn
  · rw [List.mem_append, not_or]
    exact ⟨h.disjoint n hn, fun hmem => (hnew n hmem).1 hn⟩

namespace Answers

variable {c : Call} {reply : Reply}

/-- A call keeps the names apart. -/
lemma apart (h : s.Answers c reply s') (hs : s.Apart) : s'.Apart := by
  cases h with
  | @added n hsimple hcompound =>
      have hnames : ({ s with simple := s.simple ++ [(n, none)] } : Scope).simpleNames =
          s.simpleNames ++ [n] := List.map_append
      refine ⟨?_, hs.compound, ?_⟩ <;> rw [hnames]
      · rw [← List.concat_eq_append]
        exact hs.simple.concat hsimple
      · rw [List.forall_mem_append, List.forall_mem_singleton]
        exact ⟨hs.disjoint, hcompound⟩
  | @reserved t hsimple hcompound =>
      refine hs.reserveAll (List.nodup_singleton t.lexeme) ?_
      rw [List.forall_mem_singleton]
      exact ⟨hsimple, hcompound⟩
  | enumerated hcompound hnames =>
      have hcompounds : s'.compoundNames = s.compoundNames :=
        congrArg (List.map Prod.fst) hcompound
      exact ⟨hnames ▸ hs.simple, hcompounds ▸ hs.compound, hnames ▸ hcompounds ▸ hs.disjoint⟩
  | _ => exact hs

/-- A call keeps the names in their places. -/
lemma grows (h : s.Answers c reply s') :
    s.simpleNames <+: s'.simpleNames ∧ s.compoundNames <+: s'.compoundNames := by
  cases h with
  | added _ _ => exact ⟨(List.prefix_append _ _).map _, List.prefix_rfl⟩
  | reserved _ _ => exact ⟨List.prefix_rfl, (List.prefix_append _ _).map _⟩
  | enumerated hcompound hnames =>
      have hcompounds : s'.compoundNames = s.compoundNames :=
        congrArg (List.map Prod.fst) hcompound
      rw [hnames, hcompounds]
      exact ⟨List.prefix_rfl, List.prefix_rfl⟩
  | _ => exact ⟨List.prefix_rfl, List.prefix_rfl⟩

/-- A call that is no enumeration leaves the vectors, and a new name has none. -/
lemma waits (h : s.Answers c reply s') (hc : ∀ numeric, c ≠ .enumerate numeric) :
    ∃ new, s'.simple = s.simple ++ new ∧ ∀ e ∈ new, e.2 = none := by
  cases h with
  | @added n _ _ => exact ⟨[(n, none)], rfl, List.forall_mem_singleton.mpr rfl⟩
  | @enumerated numeric _ _ _ _ => exact absurd rfl (hc numeric)
  | _ => exact ⟨[], (List.append_nil _).symm, List.forall_mem_nil _⟩

/-- An atom is new exactly if its name is on neither side. -/
lemma added_iff (h : s.Answers (.addSimple n) reply s') :
    reply = .truth true ↔ n ∉ s.simpleNames ∧ n ∉ s.compoundNames := by
  cases h with
  | added hsimple hcompound => exact iff_of_true rfl ⟨hsimple, hcompound⟩
  | present hn => exact iff_of_false nofun (not_and_or.mpr (hn.imp not_not_intro not_not_intro))
  | defined hc | simple hc => cases hc

/-- A name cannot be defined if it is on one of the sides, and the fault tells on which. -/
lemma rejected_iff (h : s.Answers c reply s') (hs : s.Apart) (hc : c.token? = some t) :
    (reply = .rejected ⟨.alreadyDefined t.lexeme, t⟩ ↔ t.lexeme ∈ s.compoundNames) ∧
      (reply = .rejected ⟨.alreadySimple t.lexeme, t⟩ ↔ t.lexeme ∈ s.simpleNames) := by
  cases h with
  | defined hc' hcompound =>
      obtain rfl := Option.some.inj (hc.symm.trans hc')
      -- the names are apart, so this one is not simple as well
      exact ⟨iff_of_true rfl hcompound,
        iff_of_false nofun fun hsimple => hs.disjoint _ hsimple hcompound⟩
  | simple hc' hcompound hsimple =>
      obtain rfl := Option.some.inj (hc.symm.trans hc')
      exact ⟨iff_of_false nofun hcompound, iff_of_true rfl hsimple⟩
  | free hsimple hcompound | reserved hsimple hcompound =>
      obtain rfl := Option.some.inj hc
      exact ⟨iff_of_false nofun hcompound, iff_of_false nofun hsimple⟩
  | _ => cases hc

/-- A call that is rejected changes nothing, and there are no other rejections. -/
lemma of_rejected {r : Rejection} (h : s.Answers c (.rejected r) s') :
    s' = s ∧ ∃ t, c.token? = some t ∧
      (r = ⟨.alreadyDefined t.lexeme, t⟩ ∨ r = ⟨.alreadySimple t.lexeme, t⟩) := by
  cases h with
  | @defined c t hc _ => exact ⟨rfl, t, hc, .inl rfl⟩
  | @simple c t hc _ _ => exact ⟨rfl, t, hc, .inr rfl⟩

end Answers

/-! ### Runs -/

/-- What every call does to a scope a run of calls does. -/
lemma after_of_step {R : Scope → Scope → Prop} (hrefl : ∀ s, R s s)
    (htrans : ∀ s s' s'', R s s' → R s' s'' → R s s'') {cs : List Call}
    (hstep : ∀ c ∈ cs, ∀ s, R s (s.perform c).2) (s : Scope) : R s (s.after cs) := by
  induction cs generalizing s with
  | nil => exact hrefl s
  | cons c cs ih =>
      obtain ⟨hc, hcs⟩ := List.forall_mem_cons.mp hstep
      exact htrans _ _ _ (hc s) (ih hcs (s.perform c).2)

/-- A run keeps the names apart. -/
lemma Apart.after (h : s.Apart) (cs : List Call) : (s.after cs).Apart :=
  after_of_step (R := fun s s' => s.Apart → s'.Apart) (fun _ => id)
    (fun _ _ _ h h' => h' ∘ h) (fun c _ s => (answers_perform s c).apart) s h

/-- A run keeps the names in their places. -/
lemma after_grows (s : Scope) (cs : List Call) :
    s.simpleNames <+: (s.after cs).simpleNames ∧ s.compoundNames <+: (s.after cs).compoundNames :=
  after_of_step (R := fun s s' => s.simpleNames <+: s'.simpleNames ∧
      s.compoundNames <+: s'.compoundNames)
    (fun _ => ⟨List.prefix_rfl, List.prefix_rfl⟩)
    (fun _ _ _ h h' => ⟨h.1.trans h'.1, h.2.trans h'.2⟩)
    (fun c _ s => (answers_perform s c).grows) s

/-- Up to the next enumeration the vectors stay, and new names have none. -/
lemma after_waits {cs : List Call} (hcs : ∀ numeric, .enumerate numeric ∉ cs) (s : Scope) :
    ∃ new, (s.after cs).simple = s.simple ++ new ∧ ∀ e ∈ new, e.2 = none := by
  refine after_of_step (R := fun s s' => ∃ new, s'.simple = s.simple ++ new ∧ ∀ e ∈ new, e.2 = none)
    (fun s => ⟨[], (List.append_nil _).symm, List.forall_mem_nil _⟩) ?_ ?_ s
  · rintro s s' s'' ⟨new, hnew, hnone⟩ ⟨new', hnew', hnone'⟩
    refine ⟨new ++ new', by rw [hnew', hnew, List.append_assoc], ?_⟩
    rw [List.forall_mem_append]
    exact ⟨hnone, hnone'⟩
  · intro c hc s
    exact (answers_perform s c).waits fun numeric heq => hcs numeric (heq ▸ hc)

/-- A scope that keeps its names in order. -/
structure Registers (s : Scope) : Prop where
  apart : s.Apart
  answers : ∀ c, s.Answers c (s.perform c).1 (s.perform c).2
  /-- An atom is new exactly if its name is on neither side. -/
  added : ∀ n, (s.perform (.addSimple n)).1 = .truth true ↔
    n ∉ s.simpleNames ∧ n ∉ s.compoundNames
  /-- A name can be defined unless it is on one of the sides, and the fault tells on which. -/
  defined : ∀ c t, c.token? = some t →
    ((s.perform c).1 = .rejected ⟨.alreadyDefined t.lexeme, t⟩ ↔ t.lexeme ∈ s.compoundNames) ∧
      ((s.perform c).1 = .rejected ⟨.alreadySimple t.lexeme, t⟩ ↔ t.lexeme ∈ s.simpleNames)
  /-- There are no other rejections, and they change nothing. -/
  rejected : ∀ c r, (s.perform c).1 = .rejected r → (s.perform c).2 = s ∧
    ∃ t, c.token? = some t ∧
      (r = ⟨.alreadyDefined t.lexeme, t⟩ ∨ r = ⟨.alreadySimple t.lexeme, t⟩)
  /-- Names stay on their side, in their places, whatever is called. -/
  grows : ∀ cs, s.simpleNames <+: (s.after cs).simpleNames ∧
    s.compoundNames <+: (s.after cs).compoundNames
  /-- An enumeration gives a vector over all rows to every simple proposition, and up to the
  next one those that are new have none. -/
  vectors : ∀ numeric cs, (∀ numeric, .enumerate numeric ∉ cs) →
    ∃ old new, (s.after (.enumerate numeric :: cs)).simple = old ++ new ∧
      old.map Prod.fst = s.simpleNames ∧
      (∀ e ∈ old, ∃ bits, e.2 = some bits ∧ bits.size = 2 ^ s.simpleNames.length) ∧
      ∀ e ∈ new, e.2 = none

/-- A scope whose names are apart keeps them in order. -/
lemma Apart.registers (h : s.Apart) : s.Registers where
  apart := h
  answers := s.answers_perform
  added n := (s.answers_perform (.addSimple n)).added_iff
  defined c _ hc := (s.answers_perform c).rejected_iff h hc
  rejected c _ hr := Answers.of_rejected (hr ▸ s.answers_perform c)
  grows := s.after_grows
  vectors numeric _ hcs := by
    obtain ⟨new, hnew, hnone⟩ := after_waits hcs (s.enumerate numeric)
    exact ⟨_, new, hnew, simpleNames_enumerate numeric,
      fun e => exists_bits_enumerate numeric, hnone⟩

/-! ### Requests -/

/-- The calls that register a proposition. -/
def Call.registering (p : Proposition) : List Call :=
  p.formula.atoms.map .addSimple ++ p.label.toList.map .declare

lemma after_append (cs ds : List Call) : s.after (cs ++ ds) = (s.after cs).after ds :=
  List.foldl_append

/-- Registering a proposition is a run of calls, which ends early if the name is not free. -/
lemma enter_run (s : Scope) (p : Proposition) :
    s.enter p = .ok (s.after (Call.registering p)) ∨
    ∃ cs t r, Call.registering p = cs ++ [.declare t] ∧ s.enter p = .error r ∧
      (s.after cs).perform (.declare t) = (.rejected r, s.after cs) := by
  have hatoms : p.formula.atoms.foldl (fun s name => (s.addSimple name).2) s =
      s.after (p.formula.atoms.map .addSimple) := by
    rw [after, List.foldl_map]
    rfl
  rw [enter, hatoms, Call.registering]
  cases p.label with
  | none =>
      refine .inl ?_
      rw [Option.toList_none, List.map_nil, List.append_nil]
  | some t =>
      dsimp only
      rw [Option.toList_some, List.map_singleton, after_append]
      set known := s.after (p.formula.atoms.map .addSimple)
      cases hdeclare : known.declare t with
      | ok s' =>
          refine .inl (congrArg Except.ok ?_)
          rw [after, List.foldl_cons, List.foldl_nil, perform, hdeclare]
      | error r => exact .inr ⟨_, t, r, rfl, rfl, by rw [perform, hdeclare]⟩

/-- So is registering a list of propositions. -/
lemma enterAll_run (s : Scope) (ps : List Proposition) :
    s.enterAll ps = .ok (s.after (ps.flatMap Call.registering)) ∨
    ∃ cs t r, cs ++ [.declare t] <+: ps.flatMap Call.registering ∧ s.enterAll ps = .error r ∧
      (s.after cs).perform (.declare t) = (.rejected r, s.after cs) := by
  induction ps generalizing s with
  | nil => exact .inl rfl
  | cons p ps ih =>
      rw [enterAll, List.flatMap_cons]
      rcases s.enter_run p with hok | ⟨cs, t, r, hcs, herror, hrejected⟩
      · rw [hok]
        dsimp only
        rcases ih (s.after (Call.registering p)) with hok | ⟨cs, t, r, hcs, herror, hrejected⟩
        · exact .inl (by rw [hok, after_append])
        · refine .inr ⟨Call.registering p ++ cs, t, r, ?_, herror, ?_⟩
          · rw [List.append_assoc]
            exact (List.prefix_append_right_inj _).mpr hcs
          · rw [after_append, hrejected]
      · rw [herror]
        exact .inr ⟨cs, t, r, hcs ▸ List.prefix_append _ _, rfl, hrejected⟩

end Scope

/-- The names that are generated for compounds are consecutive, and they are reserved behind
the others. -/
lemma Compound.gather_reserves (ps : List Proposition) (k : ℕ) (s : Scope) :
    ∃ m, ((gather ps k s).1.filter Compound.anonymous).map Compound.name =
        (List.range' k m).map anonymousName ∧
      (gather ps k s).2 = s.reserveAll ((List.range' k m).map anonymousName) := by
  induction ps generalizing k s with
  | nil => exact ⟨0, rfl, by rw [gather]; simp [Scope.reserveAll]⟩
  | cons p ps ih =>
      rw [gather]
      cases p.name with
      | some n =>
          obtain ⟨m, hnames, hscope⟩ := ih k s
          exact ⟨m, hnames, hscope⟩
      | none =>
          dsimp only
          by_cases hk : s.knows p.formula.text = true
          · rw [if_pos hk]
            exact ih k s
          · rw [if_neg hk]
            obtain ⟨m, hnames, hscope⟩ := ih (k + 1) (s.reserve (anonymousName k))
            refine ⟨m + 1, ?_, ?_⟩
            · rw [List.filter_cons_of_pos rfl, List.map_cons, hnames, List.range'_succ,
                List.map_cons]
            · rw [hscope, List.range'_succ, List.map_cons]
              simp [Scope.reserveAll, Scope.reserve]

namespace Request

variable {numeric : Bool} {text : String} {r : Request}

/-- A request whose names are apart. -/
structure Registered (r : Request) : Prop where
  /-- Its propositions were registered by calls. -/
  scope : r.scope = ({} : Scope).after (r.propositions.flatMap Scope.Call.registering)
  apart : r.scope.Apart
  /-- So are its names with those that are generated, one for each compound without a name. -/
  gathered : r.gathered.2.Apart
  simpleNames : r.gathered.2.simpleNames = r.scope.simpleNames
  compoundNames : ∃ m, r.gathered.2.compoundNames =
      r.scope.compoundNames ++ (List.range m).map anonymousName ∧
    (r.compounds.filter Compound.anonymous).map Compound.name = (List.range m).map anonymousName
  /-- No generated name is a name or an atom of the request. -/
  foreign : ∀ c ∈ r.compounds, c.anonymous = true →
    c.name ∉ Proposition.names r.propositions ∧ c.name ∉ Proposition.atoms r.propositions

/-- The scope of a request that is accepted is that of its propositions. -/
lemma enterAll_of_ok (h : ofText numeric text = .ok r) :
    ({} : Scope).enterAll r.propositions = .ok r.scope := by
  rw [ofText, ofSource_eq, ofReading] at h
  split at h
  · cases h
  · next scope hscope =>
      split at h
      · cases h
      · cases h
      · obtain rfl := Except.ok.inj h
        exact hscope

/-- The names of every request that is accepted are apart. -/
lemma registered_of_ok (h : ofText numeric text = .ok r) : r.Registered := by
  obtain ⟨-, hparse, -, hrecords⟩ := records_of_ok h
  have hplain : ∀ k n, n = anonymousName k → n ∉ Proposition.names r.propositions ∧
      n ∉ Proposition.atoms r.propositions := by
    rintro k n rfl
    exact ⟨fun hn => (Proposition.unreserved hparse (.inl hn)).ne_anonymousName k rfl,
      fun hn => (Proposition.unreserved hparse (.inr hn)).ne_anonymousName k rfl⟩
  have hscope : r.scope = ({} : Scope).after (r.propositions.flatMap Scope.Call.registering) := by
    rcases Scope.enterAll_run {} r.propositions with hok | ⟨-, -, r', -, herror, -⟩
    · exact Except.ok.inj ((enterAll_of_ok h).symm.trans hok)
    · exact absurd ((enterAll_of_ok h).symm.trans herror) nofun
  have hapart : r.scope.Apart := hscope ▸ Scope.apart_empty.after _
  have henumerated : r.enumerated.Apart := hapart.after [.enumerate r.numeric]
  obtain ⟨m, hnames, hgathered⟩ := Compound.gather_reserves r.propositions 0 r.enumerated
  rw [← List.range_eq_range'] at hnames hgathered
  refine ⟨hscope, hapart, ?_, ?_, ⟨m, ?_, hnames⟩, fun c hc hanonymous => ?_⟩
  · rw [gathered, hgathered]
    refine henumerated.reserveAll (List.nodup_range.map anonymousName_injective) ?_
    rw [List.forall_mem_map]
    intro k _
    rw [← not_or, ← Scope.knows_iff, knows_enumerated hrecords, List.contains_iff_mem,
      List.mem_append, not_or]
    exact hplain k _ rfl
  · rw [gathered, hgathered]
    exact Scope.simpleNames_enumerate r.numeric
  · rw [gathered, hgathered, Scope.compoundNames_reserveAll]
    rfl
  · have hmem : c.name ∈ (List.range m).map anonymousName :=
      hnames ▸ List.mem_map_of_mem (List.mem_filter.mpr ⟨hc, hanonymous⟩)
    obtain ⟨k, -, hk⟩ := List.mem_map.mp hmem
    exact hplain k c.name hk.symm

end Request

/-- **Names stay apart.**  Whatever was called on the empty scope, every name is on one side,
once, and it stays in its place.  An atom is new exactly if its name is on neither side, and a
name can be defined exactly then; a call that is rejected changes nothing.  An enumeration
gives every simple proposition a vector over all rows, and those that come later wait for the
next one.  The names of a request are registered by such calls up to the first that is
rejected, and they also stay apart from those that are generated for its compounds. -/
theorem Scope.registration :
    (∀ cs, (({} : Scope).after cs).Registers) ∧
      (∀ ps, ({} : Scope).enterAll ps = .ok (({} : Scope).after (ps.flatMap Call.registering)) ∨
        ∃ cs t r, cs ++ [.declare t] <+: ps.flatMap Call.registering ∧
          ({} : Scope).enterAll ps = .error r ∧
          (({} : Scope).after cs).perform (.declare t) = (.rejected r, ({} : Scope).after cs)) ∧
      ∀ numeric text r, Request.ofText numeric text = .ok r → r.Registered :=
  ⟨fun cs => (apart_empty.after cs).registers, enterAll_run {},
    fun _ _ _ => Request.registered_of_ok⟩

/-- A name that is defined and then mentioned, and a request that refers to its own name. -/
theorem Scope.registration_reference :
    (({} : Scope).after [.declare ⟨.ident, "A", ⟨1, 1, 0⟩⟩, .addSimple "A", .enumerate true,
      .addSimple "p"]).Registers ∧
    ∃ r, Request.ofText true "A = p v q, A, p ∧ A" = .ok r ∧ r.Registered :=
  have h : Request.ofText true "A = p v q, A, p ∧ A" =
      .ok ⟨true, [⟨some ⟨.ident, "A", ⟨1, 1, 0⟩⟩,
          .binary .or (.atom ⟨.ident, "p", ⟨1, 5, 4⟩⟩) (.atom ⟨.ident, "q", ⟨1, 9, 8⟩⟩)⟩,
        ⟨none, .atom ⟨.ident, "A", ⟨1, 12, 11⟩⟩⟩,
        ⟨none, .binary .and (.atom ⟨.ident, "p", ⟨1, 15, 14⟩⟩)
          (.atom ⟨.ident, "A", ⟨1, 19, 18⟩⟩)⟩],
        ⟨[("p", none), ("q", none)], [("A", none)]⟩⟩ := by decide +kernel
  ⟨registration.1 _, _, h, registration.2.2 _ _ _ h⟩

/-- The enumeration is made again when there is a new name. -/
example : ({} : Scope).after [.addSimple "q", .enumerate true, .addSimple "p", .addSimple "q",
    .declare ⟨.ident, "p", ⟨1, 1, 0⟩⟩, .enumerate true, .addSimple "r"] =
      ⟨[("q", some #[false, true, false, true]), ("p", some #[false, false, true, true]),
        ("r", none)], []⟩ := by
  decide +kernel

end Propositional
