/-
Which names a request may define.

* `Proposition.Clash`: a proposition whose name is not free, since an earlier one has
  it, or an earlier one or the proposition itself has it for an atom.
* `Scope.Records`: a scope after the given names were defined and the given atoms
  were mentioned.  It knows every one of them, each on one side only.
* `Scope.Records.enterAll`: registering a list of propositions fails at its first
  clash, and else records all of it.
* `Request.Verdict`, `Request.verdict_ofSource`: the names of a request, read to its
  end or not, are settled before its fault of syntax.
-/
import Propositional.Proofs.Interleaving

namespace Propositional

/-! ### Clashes -/

namespace Proposition

/-- The names that propositions define, in order. -/
def names (ps : List Proposition) : List String := ps.filterMap name

/-- The atoms of propositions, in order and with repetitions. -/
def atoms (ps : List Proposition) : List String := ps.flatMap fun p => p.formula.atoms

@[simp] lemma names_append (ps qs : List Proposition) : names (ps ++ qs) = names ps ++ names qs :=
  List.filterMap_append

@[simp] lemma atoms_append (ps qs : List Proposition) : atoms (ps ++ qs) = atoms ps ++ atoms qs :=
  List.flatMap_append

@[simp] lemma atoms_singleton (p : Proposition) : atoms [p] = p.formula.atoms :=
  List.flatMap_singleton _ _

/-- The proposition at a place takes a name that is not free: it is the name of an
earlier proposition, or an atom of an earlier one or of this one. -/
def Clash (ps : List Proposition) (i : ℕ) : Prop :=
  ∃ p n, ps[i]? = some p ∧ p.name = some n ∧
    (n ∈ names (ps.take i) ∨ n ∈ atoms (ps.take (i + 1)))

end Proposition

/-- The fault of a name that is not free after the given ones: it is defined already,
or else it is the name of a simple proposition. -/
def Rejection.ofName (defined : List String) (t : Token) : Rejection :=
  ⟨if t.lexeme ∈ defined then .alreadyDefined t.lexeme else .alreadySimple t.lexeme, t⟩

/-- The fault of naming in a list of propositions: that of the first clash. -/
def Proposition.FirstClash (ps : List Proposition) (r : Rejection) : Prop :=
  ∃ i p t, ps[i]? = some p ∧ p.label = some t ∧ Clash ps i ∧ (∀ j < i, ¬ Clash ps j) ∧
    r = .ofName (names (ps.take i)) t

/-! ### Scopes -/

namespace Scope

/-- A scope that knows the given names, as compound propositions without a vector,
and those of the given atoms that are not among them, as simple propositions. -/
structure Records (s : Scope) (defined mentioned : List String) : Prop where
  compound : s.compound = defined.map fun n => (n, none)
  isSimple : ∀ n, s.isSimple n = true ↔ n ∈ mentioned ∧ n ∉ defined
  nodup : (s.simple.map Prod.fst).Nodup

namespace Records

variable {s : Scope} {defined mentioned : List String}

lemma isCompound (h : s.Records defined mentioned) (n : String) :
    s.isCompound n = true ↔ n ∈ defined := by
  rw [Scope.isCompound, h.compound]
  simp

/-- A name is known if it was defined or mentioned. -/
lemma knows (h : s.Records defined mentioned) (n : String) :
    s.knows n = true ↔ n ∈ defined ∨ n ∈ mentioned := by
  rw [Scope.knows, Bool.or_eq_true, h.isSimple, h.isCompound]
  by_cases hn : n ∈ defined <;> simp [hn]

lemma addSimple (h : s.Records defined mentioned) (n : String) :
    (s.addSimple n).2.Records defined (mentioned ++ [n]) := by
  rw [Scope.addSimple]
  split
  · next hk =>
      refine ⟨h.compound, fun m => ?_, h.nodup⟩
      rw [h.isSimple, List.mem_append, List.mem_singleton]
      constructor
      · exact And.imp_left .inl
      · rintro ⟨hm | rfl, hd⟩
        · exact ⟨hm, hd⟩
        · exact ⟨((h.knows m).mp hk).resolve_left hd, hd⟩
  · next hk =>
      have hnew : n ∉ defined ∧ n ∉ mentioned := by
        rw [h.knows, not_or] at hk
        exact hk
      refine ⟨h.compound, fun m => ?_, ?_⟩
      · have hm : m ∈ s.simple.map Prod.fst ↔ m ∈ mentioned ∧ m ∉ defined := by
          rw [← h.isSimple, Scope.isSimple, List.contains_iff_mem]
        simp only [Scope.isSimple, List.map_append, List.contains_iff_mem, List.mem_append, hm]
        simp only [List.map_cons, List.map_nil, List.mem_singleton]
        constructor
        · rintro (⟨hm, hd⟩ | rfl)
          · exact ⟨.inl hm, hd⟩
          · exact ⟨.inr rfl, hnew.1⟩
        · rintro ⟨hm | rfl, hd⟩
          · exact .inl ⟨hm, hd⟩
          · exact .inr rfl
      · have hn : n ∉ s.simple.map Prod.fst := by
          rw [← List.contains_iff_mem, ← Scope.isSimple, h.isSimple]
          exact fun hm => hnew.2 hm.1
        rw [List.map_append]
        exact h.nodup.append (List.nodup_singleton n) (by simpa using hn)

lemma foldl_addSimple (h : s.Records defined mentioned) (ns : List String) :
    (ns.foldl (fun s n => (s.addSimple n).2) s).Records defined (mentioned ++ ns) := by
  induction ns generalizing s mentioned with
  | nil => simpa using h
  | cons n ns ih =>
      have := ih (h.addSimple n)
      rwa [List.append_assoc] at this

/-- Reserving a name that was not mentioned records that it is defined. -/
lemma reserve (h : s.Records defined mentioned) {n : String} (hn : n ∉ mentioned) :
    (s.reserve n).Records (defined ++ [n]) mentioned := by
  refine ⟨by rw [Scope.reserve, h.compound, List.map_append]; rfl, fun m => ?_, h.nodup⟩
  rw [show (s.reserve n).isSimple m = s.isSimple m from rfl, h.isSimple]
  constructor
  · rintro ⟨hm, hd⟩
    refine ⟨hm, fun hd' => ?_⟩
    rcases List.mem_append.mp hd' with hd' | hd'
    · exact hd hd'
    · exact hn (List.mem_singleton.mp hd' ▸ hm)
  · rintro ⟨hm, hd⟩
    exact ⟨hm, fun hd' => hd (List.mem_append_left _ hd')⟩

/-- A name is free exactly if it was neither defined nor mentioned. -/
lemma check (h : s.Records defined mentioned) (t : Token) :
    s.check t = if t.lexeme ∈ defined ∨ t.lexeme ∈ mentioned
      then .error (.ofName defined t) else .ok () := by
  have hc := h.isCompound t.lexeme
  have hs := h.isSimple t.lexeme
  rw [Scope.check, Rejection.ofName]
  by_cases hd : t.lexeme ∈ defined
  · simp [hc.mpr hd, hd]
  · have hc' : ¬ s.isCompound t.lexeme = true := fun h => hd (hc.mp h)
    by_cases hm : t.lexeme ∈ mentioned
    · simp [hc', hs.mpr ⟨hm, hd⟩, hd, hm]
    · have hs' : ¬ s.isSimple t.lexeme = true := fun h => hm (hs.mp h).1
      simp [hc', hs', hd, hm]

/-- Entering a proposition fails if its name is not free, and else records it. -/
lemma enter {ps : List Proposition}
    (h : s.Records (Proposition.names ps) (Proposition.atoms ps)) (p : Proposition) :
    (∃ t, p.label = some t ∧
      (t.lexeme ∈ Proposition.names ps ∨ t.lexeme ∈ Proposition.atoms (ps ++ [p])) ∧
      s.enter p = .error (.ofName (Proposition.names ps) t)) ∨
    ((∀ n, p.name = some n →
      n ∉ Proposition.names ps ∧ n ∉ Proposition.atoms (ps ++ [p])) ∧
      ∃ s', s.enter p = .ok s' ∧
        s'.Records (Proposition.names (ps ++ [p])) (Proposition.atoms (ps ++ [p]))) := by
  have hatoms : Proposition.atoms (ps ++ [p]) = Proposition.atoms ps ++ p.formula.atoms := by
    simp
  have hknown := h.foldl_addSimple p.formula.atoms
  rw [← hatoms] at hknown
  obtain ⟨label, f⟩ := p
  cases label with
  | none =>
      refine .inr ⟨fun n hn => (Option.some_ne_none n hn.symm).elim, _, rfl, ?_⟩
      rw [Proposition.names_append, show Proposition.names [⟨none, f⟩] = [] from rfl,
        List.append_nil]
      exact hknown
  | some t =>
      by_cases hfree : t.lexeme ∈ Proposition.names ps ∨
          t.lexeme ∈ Proposition.atoms (ps ++ [⟨some t, f⟩])
      · refine .inl ⟨t, rfl, hfree, ?_⟩
        have hcheck := hknown.check t
        rw [if_pos hfree] at hcheck
        exact congrArg (Except.map _) hcheck
      · have hcheck := hknown.check t
        rw [if_neg hfree] at hcheck
        rw [not_or] at hfree
        refine .inr ⟨fun n hn => ?_, _, congrArg (Except.map _) hcheck, ?_⟩
        · rw [← Option.some.inj hn]
          exact hfree
        · rw [Proposition.names_append]
          exact hknown.reserve hfree.2

end Records

end Scope

/-! ### Requests -/

lemma Proposition.clash_length_iff (done rest : List Proposition) (p : Proposition) :
    Clash (done ++ p :: rest) done.length ↔
      ∃ n, p.name = some n ∧ (n ∈ names done ∨ n ∈ atoms (done ++ [p])) := by
  have htake : (done ++ p :: rest).take (done.length + 1) = done ++ [p] := by
    rw [List.take_length_add_append]
    rfl
  have hget : (done ++ p :: rest)[done.length]? = some p := by simp
  rw [Clash, List.take_left, htake, hget]
  constructor
  · rintro ⟨q, n, hq, hn⟩
    cases hq
    exact ⟨n, hn⟩
  · rintro ⟨n, hn⟩
    exact ⟨p, n, rfl, hn⟩

/-- Entering propositions fails at the first clash, and else records them all. -/
lemma Scope.Records.enterAll {s : Scope} {done : List Proposition}
    (h : s.Records (Proposition.names done) (Proposition.atoms done))
    (rest : List Proposition)
    (hdone : ∀ i < done.length, ¬ Proposition.Clash (done ++ rest) i) :
    (∃ r, Proposition.FirstClash (done ++ rest) r ∧ s.enterAll rest = .error r) ∨
    ((∀ i, ¬ Proposition.Clash (done ++ rest) i) ∧
      ∃ s', s.enterAll rest = .ok s' ∧
        s'.Records (Proposition.names (done ++ rest)) (Proposition.atoms (done ++ rest))) := by
  induction rest generalizing s done with
  | nil =>
      rw [List.append_nil] at hdone ⊢
      refine .inr ⟨fun i => ?_, s, rfl, h⟩
      by_cases hi : i < done.length
      · exact hdone i hi
      · rintro ⟨p, n, hp, -⟩
        rw [List.getElem?_eq_none (not_lt.mp hi)] at hp
        cases hp
  | cons p rest ih =>
      have hclash := Proposition.clash_length_iff done rest p
      rcases h.enter p with ⟨t, ht, hfree, herror⟩ | ⟨hfree, s', hok, hrecords⟩
      · refine .inl ⟨.ofName (Proposition.names done) t,
          ⟨done.length, p, t, by simp, ht, ?_, hdone, ?_⟩, ?_⟩
        · exact hclash.mpr ⟨t.lexeme, by rw [Proposition.name, ht]; rfl, hfree⟩
        · rw [List.take_left]
        · rw [Scope.enterAll, herror]
      · rw [Scope.enterAll, hok]
        have happend : done ++ p :: rest = done ++ [p] ++ rest := by simp
        rw [happend] at hdone hclash ⊢
        refine ih hrecords fun i hi => ?_
        rw [List.length_append, List.length_singleton] at hi
        rcases Nat.lt_succ_iff_lt_or_eq.mp hi with hi | rfl
        · exact hdone i hi
        · rw [hclash]
          rintro ⟨n, hn, hnot⟩
          exact (not_or.mpr (hfree n hn)) hnot

/-- What becomes of a request that was read so far.  The first clash of the names read
to their end comes first, then the name of an unfinished proposition, then the fault of
syntax. -/
inductive Request.Verdict (numeric : Bool) (reading : Reading) :
    Except Rejection Request → Prop
  | clash {r : Rejection} (h : Proposition.FirstClash reading.propositions r) :
      Verdict numeric reading (.error r)
  | pending {t : Token} (h : ∀ i, ¬ Proposition.Clash reading.propositions i)
      (ht : reading.pending = some t)
      (htaken : t.lexeme ∈ Proposition.names reading.propositions ∨
        t.lexeme ∈ Proposition.atoms reading.propositions) :
      Verdict numeric reading (.error (.ofName (Proposition.names reading.propositions) t))
  | fault {r : Rejection} (h : ∀ i, ¬ Proposition.Clash reading.propositions i)
      (hfree : ∀ t, reading.pending = some t →
        ¬ (t.lexeme ∈ Proposition.names reading.propositions ∨
          t.lexeme ∈ Proposition.atoms reading.propositions))
      (hr : reading.fault = some r) : Verdict numeric reading (.error r)
  | accepted {scope : Scope} (h : ∀ i, ¬ Proposition.Clash reading.propositions i)
      (hfault : reading.fault = none)
      (hrecords : scope.Records (Proposition.names reading.propositions)
        (Proposition.atoms reading.propositions)) :
      Verdict numeric reading (.ok ⟨numeric, reading.propositions, scope⟩)

/-- A request gets the verdict on its reading. -/
lemma Request.verdict_ofSource (numeric : Bool) (source : Source) :
    Request.Verdict numeric (Reading.ofSource numeric source)
      (Request.ofSource numeric source) := by
  rw [Request.ofSource_eq, Request.ofReading]
  obtain ⟨ps, pending, fault⟩ := Reading.ofSource numeric source
  have hempty : ({} : Scope).Records (Proposition.names []) (Proposition.atoms []) :=
    ⟨rfl, fun n => by simp [Scope.isSimple, Proposition.atoms], List.nodup_nil⟩
  dsimp only
  rcases hempty.enterAll ps (by simp) with ⟨r, hclash, herror⟩ | ⟨hclash, scope, hok, hrecords⟩
  · rw [herror]
    exact .clash hclash
  · rw [hok]
    rw [List.nil_append] at hrecords hclash
    cases pending with
    | none =>
        cases fault with
        | some r => exact .fault hclash (fun t ht => (Option.some_ne_none t ht.symm).elim) rfl
        | none => exact .accepted hclash rfl hrecords
    | some t =>
        have hcheck := hrecords.check t
        by_cases htaken : t.lexeme ∈ Proposition.names ps ∨ t.lexeme ∈ Proposition.atoms ps
        · rw [if_pos htaken] at hcheck
          simp only [Option.elim_some, hcheck]
          exact .pending hclash rfl htaken
        · rw [if_neg htaken] at hcheck
          simp only [Option.elim_some, hcheck]
          cases fault with
          | some r => exact .fault hclash (fun u hu => Option.some.inj hu ▸ htaken) rfl
          | none => exact .accepted hclash rfl hrecords

end Propositional
