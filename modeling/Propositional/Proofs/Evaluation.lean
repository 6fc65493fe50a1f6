/-
The evaluation of a request, and what its table says.

* `Proposition.listed`: the propositions that get a column; `Compound.gather_spec`: their
  compounds, with consecutive numbers for those without a name.
* `Formula.HasVector`: a vector with the truth value of a formula in every row.
* `Scope.Evaluates`: the invariant of the evaluation.  The names that have been
  evaluated, and the simple propositions, have their vectors.
* `Compound.evaluate_spec`, `Compound.evaluateAll_spec`: one compound, and all of them,
  get the vectors of their formulas.
* `Request.evaluate_spec`: every request can be evaluated, and correctly.
* `Table.ofText_means`: the columns of a table say what the propositions mean.
-/
import Propositional.Proofs.Lexicon
import Propositional.Proofs.Meaning
import Propositional.Proofs.Vectors
import Propositional.Proofs.Grammar.FirstFault
import Propositional.Table

namespace Propositional

/-! ### Which propositions get a column -/

namespace Proposition

/-- Whether a proposition of a request gets a column of its own: if it has a name, or
if its text is not that of a name or an atom of the request. -/
def isListed (ps : List Proposition) (p : Proposition) : Bool :=
  p.name.isSome || !(names ps ++ atoms ps).contains p.formula.text

/-- The propositions of a request that get a column of their own. -/
def listed (ps : List Proposition) : List Proposition := ps.filter (isListed ps)

/-- The compound of a proposition that gets a column. -/
structure Gives (p : Proposition) (c : Compound) : Prop where
  formula : c.formula = p.formula
  text : c.text = p.formula.text
  anonymous : c.anonymous = p.name.isNone
  name : match p.name with
    | some n => c.name = n
    | none => ∃ k, c.name = anonymousName k

end Proposition

/-- Scopes that know the same of a name. -/
structure Scope.AgreeOn (s s' : Scope) (n : String) : Prop where
  vector : s'.vector n = s.vector n
  isSimple : s'.isSimple n = s.isSimple n
  isCompound : s'.isCompound n = s.isCompound n

lemma Scope.agreeOn_reserve {s : Scope} {n m : String} (h : n ≠ m) :
    s.AgreeOn (s.reserve m) n := by
  refine ⟨vector_reserve_of_ne h, rfl, ?_⟩
  rw [isCompound, isCompound, reserve, List.map_append, Bool.eq_iff_iff]
  simp [h]

lemma Scope.AgreeOn.trans {s s' s'' : Scope} {n : String} (h : s.AgreeOn s' n)
    (h' : s'.AgreeOn s'' n) : s.AgreeOn s'' n :=
  ⟨h'.vector.trans h.vector, h'.isSimple.trans h.isSimple, h'.isCompound.trans h.isCompound⟩

lemma Scope.AgreeOn.knows {s s' : Scope} {n : String} (h : s.AgreeOn s' n) :
    s'.knows n = s.knows n := by
  rw [Scope.knows, Scope.knows, h.isSimple, h.isCompound]

/-- The compounds of propositions that get a column, when `k` of those without a name came
before. -/
def Compound.numbered : ℕ → List Proposition → List Compound
  | _, [] => []
  | k, p :: ps =>
    match p.name with
    | some n => ⟨n, p.formula.text, p.formula, false⟩ :: numbered k ps
    | none => ⟨anonymousName k, p.formula.text, p.formula, true⟩ :: numbered (k + 1) ps

/-- They are the compounds of the propositions one by one. -/
lemma Compound.gives_numbered (k : ℕ) (ps : List Proposition) :
    List.Forall₂ Proposition.Gives ps (numbered k ps) := by
  induction ps generalizing k with
  | nil => exact .nil
  | cons p ps ih =>
      rw [numbered]
      cases hn : p.name with
      | some n => exact .cons ⟨rfl, rfl, by rw [hn]; rfl, by rw [hn]⟩ (ih k)
      | none => exact .cons ⟨rfl, rfl, by rw [hn]; rfl, by rw [hn]; exact ⟨k, rfl⟩⟩ (ih (k + 1))

/-- The compounds of a request are those of the propositions that get a column, and
reserving names for them changes nothing for the other names. -/
lemma Compound.gather_spec {ps rest : List Proposition} {s : Scope} (k : ℕ)
    (hs : ∀ n, Unreserved n →
      s.knows n = (Proposition.names ps ++ Proposition.atoms ps).contains n)
    (hrest : ∀ p ∈ rest, Unreserved p.formula.text) :
    (gather rest k s).1 = numbered k (rest.filter (Proposition.isListed ps)) ∧
      ∀ n, Unreserved n → s.AgreeOn (gather rest k s).2 n := by
  induction rest generalizing k s with
  | nil => exact ⟨rfl, fun n _ => ⟨rfl, rfl, rfl⟩⟩
  | cons p rest ih =>
      have hp := hrest p List.mem_cons_self
      have hrest' : ∀ q ∈ rest, Unreserved q.formula.text :=
        fun q hq => hrest q (List.mem_cons_of_mem _ hq)
      rw [gather]
      cases hn : p.name with
      | some n =>
          obtain ⟨hnumbered, hagree⟩ := ih k hs hrest'
          have hlisted : Proposition.isListed ps p = true := by
            rw [Proposition.isListed, hn]
            rfl
          rw [List.filter_cons_of_pos hlisted, numbered, hn]
          exact ⟨congrArg (_ :: ·) hnumbered, hagree⟩
      | none =>
          have hlisted : Proposition.isListed ps p = !s.knows p.formula.text := by
            rw [Proposition.isListed, hn, hs _ hp]
            rfl
          dsimp only
          by_cases hk : s.knows p.formula.text = true
          · rw [if_pos hk, List.filter_cons_of_neg (by simp [hlisted, hk])]
            exact ih k hs hrest'
          · have hreserve : ∀ n, Unreserved n → s.AgreeOn (s.reserve (anonymousName k)) n :=
              fun n hn => Scope.agreeOn_reserve (hn.ne_anonymousName k)
            obtain ⟨hnumbered, hagree⟩ := ih (k + 1) (s := s.reserve (anonymousName k))
              (fun n hn => (hreserve n hn).knows.trans (hs n hn)) hrest'
            rw [if_neg hk, List.filter_cons_of_pos (by simp [hlisted, hk]), numbered, hn]
            exact ⟨congrArg (_ :: ·) hnumbered, fun n hn => (hreserve n hn).trans (hagree n hn)⟩

/-! ### The vectors of compounds -/

/-- A vector with the truth value of a formula in every row, where the simple
propositions of a row have the given ones. -/
structure Formula.HasVector (ps : List Proposition) (rows : ℕ) (v : ℕ → String → Option Bool)
    (f : Formula) (bits : Bits) : Prop where
  size : bits.size = rows
  means : ∀ i < rows, ∀ b, bits[i]? = some b ↔ f.Means ps (v i) b

/-- A scope in the course of the evaluation, when the propositions in `done` have been
evaluated.  Their names have their vectors, and so have the simple propositions. -/
structure Scope.Evaluates (s : Scope) (ps done : List Proposition) (rows : ℕ)
    (v : ℕ → String → Option Bool) : Prop where
  evaluated : ∀ n, n ∈ Proposition.names done ∨
      (n ∈ Proposition.atoms ps ∧ n ∉ Proposition.names ps) →
    ∃ bits, s.vector n = .ok (some bits) ∧ (Formula.atom n).HasVector ps rows v bits
  defined : ∀ n ∈ Proposition.names ps, s.isSimple n = false ∧ s.isCompound n = true

variable {ps done rest : List Proposition} {s : Scope} {rows : ℕ} {v : ℕ → String → Option Bool}

/-- Truth values row by row make a vector. -/
lemma mapM_range {f : ℕ → Except Fault Bool} {g : ℕ → Bool} (h : ∀ i < rows, f i = .ok (g i)) :
    (Array.range rows).mapM f = .ok ((Array.range rows).map g) := by
  induction rows with
  | zero =>
      rw [show Array.range 0 = #[] by rfl, Array.mapM_empty, Array.map_empty]
      rfl
  | succ n ih =>
      rw [Array.range_succ, Array.mapM_append, ih fun i hi => h i (Nat.lt_succ_of_lt hi)]
      simp [h n (Nat.lt_succ_self n), bind, Except.bind, pure, Except.pure]

/-- A compound whose predecessors have been evaluated gets the vector of its
formula. -/
lemma Compound.evaluate_spec {p : Proposition} {c : Compound}
    (hps : ∀ i, ¬ Proposition.Clash ps i) (heq : ps = done ++ p :: rest)
    (hs : s.Evaluates ps done rows v) (hc : c.formula = p.formula) :
    ∃ bits, c.evaluate s rows = .ok bits ∧ p.formula.HasVector ps rows v bits := by
  have hknown : ∀ n ∈ p.formula.atoms, ∃ bits, s.vector n = .ok (some bits) ∧
      (Formula.atom n).HasVector ps rows v bits := by
    intro n hn
    refine hs.evaluated n ?_
    by_cases hdef : n ∈ Proposition.names ps
    · rw [heq] at hdef hps
      exact .inl (Proposition.mem_names_of_mem_atoms hps hn hdef)
    · exact .inr ⟨Proposition.mem_atoms.mpr ⟨p, by simp [heq], hn⟩, hdef⟩
  -- the truth values that the atoms have in a row
  let w (i : ℕ) (n : String) : Bool := (s.bit i n).toOption.getD false
  have hw : ∀ i < rows, ∀ n ∈ p.formula.atoms,
      s.bit i n = .ok (w i n) ∧ (Formula.atom n).Means ps (v i) (w i n) := by
    intro i hi n hn
    obtain ⟨bits, hvector, hsize, hmeans⟩ := hknown n hn
    have hget : bits[i]? = some bits[i] := Array.getElem?_eq_getElem (hsize ▸ hi)
    have hbit := Scope.bit_eq_ok hvector hget
    have hwi : w i n = bits[i] := by
      show (s.bit i n).toOption.getD false = _
      rw [hbit]
      rfl
    rw [hwi]
    exact ⟨hbit, (hmeans i hi _).mp hget⟩
  have heval : ∀ i < rows, Program.evaluate (s.bit i) p.formula.compile =
      .ok (p.formula.eval (w i)) := by
    intro i hi
    have hrun := Program.run_compile p.formula (fun n hn => (hw i hi n hn).1) [] []
    rw [List.append_nil] at hrun
    rw [Program.evaluate, hrun]
    rfl
  refine ⟨(Array.range rows).map fun i => p.formula.eval (w i), ?_, by simp, fun i hi b => ?_⟩
  · rw [evaluate, hc]
    exact mapM_range heval
  · have hmeans : p.formula.Means ps (v i) (p.formula.eval (w i)) :=
      p.formula.means_eval fun n hn => (hw i hi n hn).2
    have hget : ((Array.range rows).map fun i => p.formula.eval (w i))[i]? =
        some (p.formula.eval (w i)) := by
      simp [hi]
    rw [hget, Option.some_inj]
    exact ⟨fun h => h ▸ hmeans, hmeans.eq hps⟩

namespace Scope.Evaluates

variable {p : Proposition}

lemma skip (hs : s.Evaluates ps done rows v) (hp : p.name = none) :
    s.Evaluates ps (done ++ [p]) rows v := by
  have hnames : Proposition.names (done ++ [p]) = Proposition.names done := by
    rw [Proposition.names_append, show Proposition.names [p] = [] by simp [Proposition.names, hp],
      List.append_nil]
  refine ⟨fun n hn => hs.evaluated n ?_, hs.defined⟩
  rwa [hnames] at hn

/-- Filling a name that no evaluated name is changes nothing for them. -/
lemma fill_of_ne (hs : s.Evaluates ps done rows v) {m : String} (bits : Bits)
    (hm : ∀ n, n ∈ Proposition.names done ∨
      (n ∈ Proposition.atoms ps ∧ n ∉ Proposition.names ps) → n ≠ m) :
    (s.fill m bits).Evaluates ps done rows v := by
  refine ⟨fun n hn => ?_, fun n hn => ?_⟩
  · rw [vector_fill_of_ne bits (hm n hn)]
    exact hs.evaluated n hn
  · rw [isSimple_fill, isCompound_fill]
    exact hs.defined n hn

/-- Filling a proposition with the vector of its formula evaluates it. -/
lemma fill {c : Compound} {bits : Bits} (hps : ∀ i, ¬ Proposition.Clash ps i)
    (hplain : ∀ n, n ∈ Proposition.names ps ∨ n ∈ Proposition.atoms ps → Unreserved n)
    (heq : ps = done ++ p :: rest) (hs : s.Evaluates ps done rows v) (hc : p.Gives c)
    (hbits : p.formula.HasVector ps rows v bits) :
    (s.fill c.name bits).Evaluates ps (done ++ [p]) rows v := by
  have hname := hc.name
  have hsub : ∀ n ∈ Proposition.names done, n ∈ Proposition.names ps := by
    intro n hn
    rw [heq, Proposition.names_append]
    exact List.mem_append_left _ hn
  cases hp : p.name with
  | none =>
      rw [hp] at hname
      obtain ⟨k, hk⟩ := hname
      refine (hs.fill_of_ne bits fun n hn => ?_).skip hp
      rw [hk]
      exact (hplain n (hn.imp (hsub n) And.left)).ne_anonymousName k
  | some m =>
      rw [hp] at hname
      obtain rfl : c.name = m := hname
      have hmem : p ∈ ps := by simp [heq]
      have hdefined := hs.defined c.name (Proposition.mem_names.mpr ⟨p, hmem, hp⟩)
      refine ⟨fun n hn => ?_, fun n hn => ?_⟩
      · by_cases hne : n = c.name
        · refine ⟨bits, ?_, hbits.size, fun i hi b => ?_⟩
          · rw [hne, vector_fill_self bits hdefined.1 hdefined.2]
          · rw [hne, Formula.means_atom_iff hps hmem hp]
            exact hbits.means i hi b
        · rw [vector_fill_of_ne bits hne]
          refine hs.evaluated n (hn.imp_left fun hn => ?_)
          rw [Proposition.names_append, List.mem_append] at hn
          refine hn.resolve_right fun hn => hne ?_
          obtain ⟨q, hq, hqn⟩ := Proposition.mem_names.mp hn
          rw [List.mem_singleton.mp hq, hp] at hqn
          exact (Option.some.inj hqn).symm
      · rw [isSimple_fill, isCompound_fill]
        exact hs.defined n hn

end Scope.Evaluates

/-- The compounds of the propositions still to come get the vectors of their
formulas. -/
lemma Compound.evaluateAll_spec {cs : List Compound} (hps : ∀ i, ¬ Proposition.Clash ps i)
    (hplain : ∀ n, n ∈ Proposition.names ps ∨ n ∈ Proposition.atoms ps → Unreserved n)
    (heq : ps = done ++ rest) (hs : s.Evaluates ps done rows v)
    (hcs : List.Forall₂ Proposition.Gives (rest.filter (Proposition.isListed ps)) cs) :
    ∃ vectors, evaluateAll rows cs s = .ok vectors ∧
      List.Forall₂ (fun p entry => p.Gives entry.1 ∧ p.formula.HasVector ps rows v entry.2)
        (rest.filter (Proposition.isListed ps)) vectors := by
  induction rest generalizing done s cs with
  | nil =>
      obtain rfl := List.forall₂_nil_left_iff.mp hcs
      exact ⟨[], rfl, .nil⟩
  | cons p rest ih =>
      have hnext : ps = done ++ [p] ++ rest := by simp [heq]
      by_cases hlisted : Proposition.isListed ps p = true
      · rw [List.filter_cons_of_pos hlisted] at hcs ⊢
        obtain ⟨c, cs', hc, hcs', rfl⟩ := List.forall₂_cons_left_iff.mp hcs
        obtain ⟨bits, hbits, hvector⟩ := evaluate_spec hps heq hs hc.formula
        obtain ⟨vectors, hvectors, hall⟩ := ih hnext (hs.fill hps hplain heq hc hvector) hcs'
        refine ⟨(c, bits) :: vectors, ?_, .cons ⟨hc, hvector⟩ hall⟩
        rw [evaluateAll, hbits]
        dsimp only
        rw [hvectors]
        rfl
      · have hp : p.name = none := by
          cases hp : p.name with
          | none => rfl
          | some n => exact absurd (by rw [Proposition.isListed, hp]; rfl) hlisted
        rw [List.filter_cons_of_neg hlisted] at hcs ⊢
        exact ih hnext (hs.skip hp) hcs

/-! ### The evaluation of a request -/

/-- The truth value of a simple proposition in a row of the enumeration. -/
def Evaluation.value (e : Evaluation) (i : ℕ) (n : String) : Option Bool :=
  (e.simple.lookup n).bind (·[i]?)

section Request

variable {r : Request}

/-- The enumeration of a request knows its names and its atoms. -/
lemma Request.knows_enumerated (hrecords : r.scope.Records (Proposition.names r.propositions)
      (Proposition.atoms r.propositions)) (n : String) :
    r.enumerated.knows n =
      (Proposition.names r.propositions ++ Proposition.atoms r.propositions).contains n := by
  calc
    r.enumerated.knows n = r.scope.knows n := by
      rw [Scope.knows, enumerated, Scope.isSimple_enumerate]
      rfl
    _ = (Proposition.names r.propositions ++ Proposition.atoms r.propositions).contains n := by
      rw [Bool.eq_iff_iff, hrecords.knows, List.contains_iff_mem, List.mem_append]

lemma Request.rows_eq (r : Request) : r.rows = Nat.pow 2 r.scope.sortedNames.length := by
  rw [rows, Scope.rows, Scope.sortedNames, length_sortNames, List.length_map]

/-- The invariant holds before the evaluation, in every scope that agrees with the
enumeration about the names and the atoms of the request. -/
lemma Request.evaluates_start {s : Scope}
    (hrecords : r.scope.Records (Proposition.names r.propositions)
      (Proposition.atoms r.propositions))
    (hs : ∀ n, n ∈ Proposition.names r.propositions ∨ n ∈ Proposition.atoms r.propositions →
      r.enumerated.AgreeOn s n) :
    s.Evaluates r.propositions [] r.rows fun i n =>
      ((Bits.enumerate r.numeric r.scope.sortedNames).lookup n).bind (·[i]?) := by
  refine ⟨fun n hn => ?_, fun n hn => ?_⟩
  · obtain ⟨hatom, hname⟩ := hn.resolve_left List.not_mem_nil
    have hsimple : r.scope.isSimple n = true := (hrecords.isSimple n).mpr ⟨hatom, hname⟩
    have hmem : n ∈ r.scope.sortedNames := by
      rw [Scope.sortedNames, mem_sortNames, ← List.contains_iff_mem]
      exact hsimple
    obtain ⟨bits, hbits, hsize⟩ := Bits.lookup_enumerate r.numeric hmem
    have hvector : s.vector n = .ok (some bits) := by
      rw [(hs n (.inr hatom)).vector, enumerated, Scope.vector_enumerate r.numeric hsimple, hbits]
    refine ⟨bits, hvector, hsize.trans r.rows_eq.symm, fun i _ b => ?_⟩
    rw [Formula.means_atom_given_iff hname, hbits, Option.bind_some]
  · have hagree := hs n (.inl hn)
    rw [hagree.isSimple, hagree.isCompound, enumerated, Scope.isSimple_enumerate]
    refine ⟨?_, (hrecords.isCompound n).mpr hn⟩
    rw [← Bool.not_eq_true, hrecords.isSimple]
    exact fun h => h.2 hn

/-- Every request without clashes can be evaluated, and every compound gets the vector
of its formula. -/
lemma Request.evaluate_spec (hps : ∀ i, ¬ Proposition.Clash r.propositions i)
    (hplain : ∀ n, n ∈ Proposition.names r.propositions ∨ n ∈ Proposition.atoms r.propositions →
      Unreserved n)
    (hrecords : r.scope.Records (Proposition.names r.propositions)
      (Proposition.atoms r.propositions)) :
    ∃ e, r.evaluate = .ok e ∧ (∀ entry ∈ e.simple, entry.2.size = e.rows) ∧
      List.Forall₂ (fun p entry => p.Gives entry.1 ∧
        p.formula.HasVector r.propositions e.rows e.value entry.2)
        (Proposition.listed r.propositions) e.compounds := by
  have htexts : ∀ p ∈ r.propositions, Unreserved p.formula.text := by
    intro p hp
    exact p.formula.unreserved_text fun n hn =>
      hplain n (.inr (Proposition.mem_atoms.mpr ⟨p, hp, hn⟩))
  obtain ⟨hnumbered, hagree⟩ :=
    Compound.gather_spec 0 (fun n _ => Request.knows_enumerated hrecords n) htexts
  have hgives := Compound.gives_numbered 0 (Proposition.listed r.propositions)
  rw [Proposition.listed, ← hnumbered] at hgives
  have hstart := Request.evaluates_start hrecords fun n hn => hagree n (hplain n hn)
  obtain ⟨vectors, hvectors, hall⟩ :=
    Compound.evaluateAll_spec hps hplain (List.nil_append _).symm hstart hgives
  refine ⟨⟨r.rows, Bits.enumerate r.numeric r.scope.sortedNames, vectors⟩, ?_, ?_, hall⟩
  · rw [Request.evaluate]
    dsimp only
    rw [show Compound.evaluateAll r.rows r.gathered.1 r.gathered.2 = _ from hvectors]
  · exact fun entry hentry => (Bits.size_of_mem_enumerate hentry).trans r.rows_eq.symm

end Request

/-- The names and the atoms of a text are unreserved. -/
lemma Derivation.Items.unreserved {numeric : Bool} {text : String} (is : Items numeric)
    (h : is.tokens = (Source.ofText text).tokens) {n : String}
    (hn : n ∈ Proposition.names is.propositions ∨ n ∈ Proposition.atoms is.propositions) :
    Unreserved n := by
  obtain ⟨p, hp, hpn⟩ := Proposition.mem_names_or_mem_atoms.mp hn
  obtain ⟨t, ht, hatom, rfl⟩ := is.exists_of_mem hp hpn
  exact hatom.unreserved (h ▸ ht)

/-- A text that is read to its end is rejected at its first clash, or it is accepted with a
scope of its names. -/
lemma Request.ofText_of_parse {numeric : Bool} {text : String} {ps : List Proposition}
    (h : Proposition.parse numeric text = .ok ps) :
    (∃ r, Proposition.FirstClash ps r ∧ Request.ofText numeric text = .error r) ∨
    ∃ s : Scope, s.Records (Proposition.names ps) (Proposition.atoms ps) ∧
      Request.ofText numeric text = .ok ⟨numeric, ps, s⟩ := by
  have hverdict := Request.verdict_ofSource numeric (.ofText text)
  rw [Reading.ofSource_eq h, ← Request.ofText] at hverdict
  generalize Request.ofText numeric text = x at hverdict
  cases hverdict with
  | @clash r h => exact .inl ⟨r, h, rfl⟩
  | pending _ ht => cases ht
  | fault _ _ hf => cases hf
  | @accepted s _ _ hrecords => exact .inr ⟨s, hrecords, rfl⟩

/-- A request that is accepted has a table, made from an evaluation in which every
compound has the vector of its formula. -/
lemma Request.table_of_ok {numeric : Bool} {text : String} {r : Request}
    (h : Request.ofText numeric text = .ok r) (ordered : Bool) :
    Proposition.parse numeric text = .ok r.propositions ∧
    (∀ i, ¬ Proposition.Clash r.propositions i) ∧
    ∃ e : Evaluation, Table.ofText numeric ordered text = .ok (e.table numeric ordered) ∧
      (∀ entry ∈ e.simple, entry.2.size = e.rows) ∧
      List.Forall₂ (fun p entry => p.Gives entry.1 ∧
        p.formula.HasVector r.propositions e.rows e.value entry.2)
        (Proposition.listed r.propositions) e.compounds := by
  have hverdict := Request.verdict_ofSource numeric (.ofText text)
  rw [← Request.ofText, h] at hverdict
  cases hverdict with
  | accepted hps hfault hrecords =>
      have hparse : Proposition.parse numeric text =
          .ok (Reading.ofSource numeric (.ofText text)).propositions := by
        rw [Proposition.parse, Reading.result, hfault]
      obtain ⟨is, htokens, hprops⟩ := (Reading.result_eq_ok_iff _ _).mp hparse
      have hplain : ∀ n, _ → Unreserved n := fun n hn => is.unreserved htokens hn
      rw [hprops] at hplain
      obtain ⟨e, he, hsizes, hall⟩ := Request.evaluate_spec (r := ⟨numeric, _, _⟩) hps hplain
        hrecords
      refine ⟨hparse, hps, e, ?_, hsizes, hall⟩
      rw [Table.ofText, h]
      dsimp only
      rw [Request.table, he]
      rfl

/-! ### Tables -/

/-- The truth value of a simple proposition in a row of a table. -/
def Table.simpleBit (t : Table) (i : ℕ) (n : String) : Option Bool :=
  (t.columns.find? fun c => c.kind = .simple ∧ c.name = n).bind (·.bits[i]?)

/-- The column of a proposition: its header is the text of the proposition, and it has
the proposition's name, if there is one. -/
structure Column.BelongsTo (c : Column) (p : Proposition) : Prop where
  header : c.header = p.text
  kind : c.kind = if p.name.isSome then .named else .anonymous
  name : ∀ n, p.name = some n → c.name = n

namespace Evaluation

/-- The column of a simple proposition. -/
def simpleColumn (ordered : Bool) (entry : String × Bits) : Column :=
  ⟨entry.1, entry.1, if ordered then entry.2 else entry.2.reverse, .simple⟩

/-- The column of a compound. -/
def column (ordered : Bool) (entry : Compound × Bits) : Column :=
  ⟨entry.1.name, entry.1.header, if ordered then entry.2 else entry.2.reverse,
    if entry.1.anonymous then .anonymous else .named⟩

/-- The row of the enumeration that a row of the table shows. -/
def place (e : Evaluation) (ordered : Bool) (i : ℕ) : ℕ :=
  if ordered then i else e.rows - 1 - i

variable {e : Evaluation} {numeric ordered : Bool} {i : ℕ}

lemma place_lt (hi : i < e.rows) : e.place ordered i < e.rows := by
  rw [place]
  split
  · exact hi
  · omega

lemma columns_table : (e.table numeric ordered).columns =
    e.simple.map (simpleColumn ordered) ++ e.compounds.map (column ordered) := rfl

lemma kind_column (entry : Compound × Bits) : (column ordered entry).kind ≠ .simple := by
  rw [column]
  cases entry.1.anonymous <;> simp

lemma getElem?_arrange {bits : Bits} (hbits : bits.size = e.rows) (hi : i < e.rows) :
    (if ordered = true then bits else bits.reverse)[i]? = bits[e.place ordered i]? := by
  rw [place]
  split
  · rfl
  · rw [Array.getElem?_reverse (hbits ▸ hi), hbits]

lemma simpleBit_table (he : ∀ entry ∈ e.simple, entry.2.size = e.rows) (hi : i < e.rows) :
    (e.table numeric ordered).simpleBit i = e.value (e.place ordered i) := by
  funext n
  have hsimple : ∀ entries : List (String × Bits), (∀ entry ∈ entries, entry.2.size = e.rows) →
      ((entries.map (simpleColumn ordered)).find?
        fun c => c.kind = .simple ∧ c.name = n).bind (·.bits[i]?) =
          (entries.lookup n).bind (·[e.place ordered i]?) := by
    intro entries hentries
    induction entries with
    | nil => rfl
    | cons entry entries ih =>
        rw [List.map_cons, List.lookup_cons]
        by_cases heq : n = entry.1
        · rw [List.find?_cons_of_pos (by simp [simpleColumn, heq]), heq, beq_self_eq_true]
          exact getElem?_arrange (hentries entry List.mem_cons_self) hi
        · rw [List.find?_cons_of_neg (by simp [simpleColumn, Ne.symm heq]),
            beq_eq_false_iff_ne.mpr heq]
          exact ih fun entry hentry => hentries entry (List.mem_cons_of_mem _ hentry)
  have hcompounds : (e.compounds.map (column ordered)).find?
      (fun c => c.kind = .simple ∧ c.name = n) = none := by
    refine List.find?_eq_none.mpr fun c hc => ?_
    obtain ⟨entry, -, rfl⟩ := List.mem_map.mp hc
    simp [kind_column entry]
  rw [Table.simpleBit, columns_table, List.find?_append, hcompounds, Option.or_none]
  exact hsimple e.simple he

lemma filter_columns_table :
    (e.table numeric ordered).columns.filter (fun c => c.kind ≠ .simple) =
      e.compounds.map (column ordered) := by
  have hsimple : (e.simple.map (simpleColumn ordered)).filter (fun c => c.kind ≠ .simple) = [] := by
    refine List.filter_eq_nil_iff.mpr fun c hc => ?_
    obtain ⟨entry, -, rfl⟩ := List.mem_map.mp hc
    simp [simpleColumn]
  have hcompounds : (e.compounds.map (column ordered)).filter (fun c => c.kind ≠ .simple) =
      e.compounds.map (column ordered) := by
    refine List.filter_eq_self.mpr fun c hc => ?_
    obtain ⟨entry, -, rfl⟩ := List.mem_map.mp hc
    exact decide_eq_true (kind_column entry)
  rw [columns_table, List.filter_append, hsimple, hcompounds, List.nil_append]

/-- A compound of a proposition gives the proposition's column. -/
lemma column_belongsTo {p : Proposition} {entry : Compound × Bits} (h : p.Gives entry.1) :
    (column ordered entry).BelongsTo p := by
  have hname := h.name
  refine ⟨?_, ?_, fun n hn => ?_⟩
  · show entry.1.header = p.text
    rw [Compound.header, Proposition.text, h.anonymous, h.text]
    cases hp : p.name with
    | none => rfl
    | some n =>
        rw [hp] at hname
        rw [← show entry.1.name = n from hname]
        rfl
  · show (if entry.1.anonymous = true then _ else _) = _
    rw [h.anonymous]
    cases p.name <;> rfl
  · rw [hn] at hname
    exact hname

end Evaluation

/-- **What a table says.** Every proposition of a request that gets a column has in
every row of it the truth value of its formula, by recursion on the trees of the
request from the simple columns of the same row. -/
theorem Table.ofText_means {numeric ordered : Bool} {text : String} {t : Table}
    (h : Table.ofText numeric ordered text = .ok t) :
    ∃ ps, Proposition.parse numeric text = .ok ps ∧
      List.Forall₂ (fun p c => c.BelongsTo p ∧ c.bits.size = t.rows ∧
          ∀ i < t.rows, ∀ b, c.bits[i]? = some b ↔ p.formula.Means ps (t.simpleBit i) b)
        (Proposition.listed ps) (t.columns.filter fun c => c.kind ≠ .simple) := by
  cases hr : Request.ofText numeric text with
  | error r =>
      rw [Table.ofText, hr] at h
      cases h
  | ok r =>
      obtain ⟨hparse, -, e, he, hsizes, hall⟩ := Request.table_of_ok hr ordered
      obtain rfl : e.table numeric ordered = t := Except.ok.inj (he.symm.trans h)
      refine ⟨r.propositions, hparse, ?_⟩
      rw [Evaluation.filter_columns_table, List.forall₂_map_right_iff]
      refine hall.imp fun p entry ⟨hgives, hsize, hmeans⟩ =>
        ⟨Evaluation.column_belongsTo hgives, ?_, fun i hi b => ?_⟩
      · show Array.size (if ordered = true then entry.2 else entry.2.reverse) = e.rows
        split
        · exact hsize
        · rw [Array.size_reverse, hsize]
      · rw [Evaluation.simpleBit_table hsizes hi]
        show (if ordered = true then entry.2 else entry.2.reverse)[i]? = some b ↔ _
        rw [Evaluation.getElem?_arrange hsize hi]
        exact hmeans _ (Evaluation.place_lt hi) b

/-- A name stands for its formula also where the rows are reversed. -/
theorem Table.ofText_means_reversed :
    ∃ t, Table.ofText true false "p = !a, (p -> a)" = .ok t ∧
      ∃ ps, Proposition.parse true "p = !a, (p -> a)" = .ok ps ∧
        List.Forall₂ (fun p c => c.BelongsTo p ∧ c.bits.size = t.rows ∧
            ∀ i < t.rows, ∀ b, c.bits[i]? = some b ↔ p.formula.Means ps (t.simpleBit i) b)
          (Proposition.listed ps) (t.columns.filter fun c => c.kind ≠ .simple) :=
  have h : Table.ofText true false "p = !a, (p -> a)" =
      .ok ⟨[⟨"a", "a", #[true, false], .simple⟩, ⟨"p", "p = ¬a", #[false, true], .named⟩,
        ⟨"$p0", "(p -> a)", #[true, false], .anonymous⟩], 2, true, false⟩ := by decide +kernel
  ⟨_, h, Table.ofText_means h⟩

end Propositional
