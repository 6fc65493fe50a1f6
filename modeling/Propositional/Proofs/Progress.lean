/-
Nothing goes wrong once the names of a request are settled.

* `Program.Delivers`: a program that never takes an operand from an empty stack and leaves
  one value on it.
* `Scope.fillAll`: the scope in which the evaluation of a compound starts, with the vectors
  of the compounds before it; `Compound.evaluate_of_split` says that it does.
* `Compound.Supplied`: every name that a compound pushes has its whole vector by then.
* `Request.evaluate_progress`: every accepted request is evaluated to its end, and every
  compound of it is supplied.
-/
import Propositional.Proofs.Columns
import Propositional.Session

namespace Propositional

/-! ### The operand stack -/

/-- The number of operands that an instruction takes from the stack. -/
def Instruction.arity : Instruction → ℕ
  | .push _ => 0
  | .not => 1
  | .binary _ => 2

variable {value : String → Except Fault Bool}

/-- An instruction only succeeds on a stack that holds its operands. -/
lemma Instruction.arity_le {i : Instruction} {stack stack' : List Bool}
    (h : i.step value stack = .ok stack') : i.arity ≤ stack.length := by
  cases i with
  | push n => exact Nat.zero_le _
  | not =>
      cases stack with
      | nil => cases h
      | cons p stack => simp [arity]
  | binary kind =>
      match stack, h with
      | [], h => cases h
      | [q], h => cases h
      | q :: p :: stack, _ => simp [arity]

/-- A program that gets by on an empty stack and leaves a single value.  In front of each of
its instructions the stack holds the operands that this takes. -/
structure Program.Delivers (value : String → Except Fault Bool) (program : Program) (b : Bool) :
    Prop where
  operands : ∀ before i after, program = before ++ i :: after →
    ∃ stack, run value before [] = .ok stack ∧ i.arity ≤ stack.length
  single : run value program [] = .ok [b]

/-- A program that runs to its end has had its operands all along. -/
lemma Program.delivers_of_run {program : Program} {b : Bool}
    (h : run value program [] = .ok [b]) : program.Delivers value b := by
  refine ⟨fun before i after hsplit => ?_, h⟩
  rw [hsplit, run_append] at h
  cases hbefore : run value before [] with
  | error f =>
      rw [hbefore] at h
      cases h
  | ok stack =>
      rw [hbefore] at h
      refine ⟨stack, rfl, ?_⟩
      change run value (i :: after) stack = .ok [b] at h
      rw [run] at h
      cases hstep : i.step value stack with
      | error f =>
          rw [hstep] at h
          cases h
      | ok stack' => exact Instruction.arity_le hstep

/-- A formula pushes its atoms. -/
lemma Formula.push_mem_compile {f : Formula} {n : String} :
    .push n ∈ f.compile ↔ n ∈ f.atoms := by
  induction f with
  | atom m => simp [compile, atoms]
  | neg f ih => simp [compile, atoms, ih]
  | binary c l r ihl ihr => simp [compile, atoms, ihl, ihr]
  | group b f ih => exact ih

/-! ### The scope of each compound -/

/-- A scope after some compounds have been given their vectors. -/
def Scope.fillAll (s : Scope) (done : List (Compound × Bits)) : Scope :=
  done.foldl (fun s entry => s.fill entry.1.name entry.2) s

/-- Each compound is evaluated in the scope with the vectors of those before it. -/
lemma Compound.evaluate_of_split {rows : ℕ} {cs : List Compound} {s : Scope}
    {done rest : List (Compound × Bits)} {c : Compound} {bits : Bits}
    (h : evaluateAll rows cs s = .ok (done ++ (c, bits) :: rest)) :
    c.evaluate (s.fillAll done) rows = .ok bits := by
  induction cs generalizing s done with
  | nil =>
      rw [evaluateAll, Except.ok.injEq] at h
      simp at h
  | cons d cs ih =>
      rw [evaluateAll] at h
      cases hd : d.evaluate s rows with
      | error f =>
          rw [hd] at h
          cases h
      | ok bits' =>
          rw [hd] at h
          dsimp only at h
          cases hrest : evaluateAll rows cs (s.fill d.name bits') with
          | error f =>
              rw [hrest] at h
              cases h
          | ok vectors =>
              rw [hrest] at h
              have hlist : (d, bits') :: vectors = done ++ (c, bits) :: rest := Except.ok.inj h
              cases done with
              | nil =>
                  obtain ⟨hentry, -⟩ := List.cons.inj hlist
                  cases hentry
                  exact hd
              | cons entry done =>
                  obtain ⟨rfl, rfl⟩ := List.cons.inj hlist
                  exact ih (s := s.fill d.name bits') hrest

namespace Scope

variable {s : Scope} {n : String} {done : List (Compound × Bits)}

lemma vector_fillAll_of_ne (h : ∀ entry ∈ done, n ≠ entry.1.name) :
    (s.fillAll done).vector n = s.vector n := by
  induction done generalizing s with
  | nil => rfl
  | cons entry done ih =>
      rw [List.forall_mem_cons] at h
      exact (ih h.2).trans (vector_fill_of_ne entry.2 h.1)

/-- A compound that was filled, under a name of its own, has its vector. -/
lemma vector_fillAll (hnodup : (done.map fun entry => entry.1.name).Nodup)
    {entry : Compound × Bits} (hentry : entry ∈ done) (hs : s.isSimple entry.1.name = false)
    (hc : s.isCompound entry.1.name = true) :
    (s.fillAll done).vector entry.1.name = .ok (some entry.2) := by
  induction done generalizing s with
  | nil => cases hentry
  | cons first done ih =>
      rw [List.map_cons, List.nodup_cons] at hnodup
      rcases List.mem_cons.mp hentry with rfl | hentry
      · have hlater : ∀ other ∈ done, entry.1.name ≠ other.1.name := by
          intro other hother heq
          rw [heq] at hnodup
          exact hnodup.1 (List.mem_map_of_mem hother)
        exact (vector_fillAll_of_ne hlater).trans (vector_fill_self entry.2 hs hc)
      · refine ih hnodup.2 hentry ?_ ?_
        · rw [isSimple_fill, hs]
        · rw [isCompound_fill, hc]

end Scope

/-! ### Accepted requests -/

namespace Request

variable {numeric : Bool} {text : String} {r : Request} {e : Evaluation}

/-- A request that is accepted was read to its end, without a clash, and its scope records
its names. -/
lemma records_of_ok (h : Request.ofText numeric text = .ok r) :
    r.numeric = numeric ∧ Proposition.parse numeric text = .ok r.propositions ∧
      (∀ i, ¬ Proposition.Clash r.propositions i) ∧
      r.scope.Records (Proposition.names r.propositions) (Proposition.atoms r.propositions) := by
  obtain ⟨hparse, hps, -⟩ := Request.table_of_ok h true
  rcases Request.ofText_of_parse hparse with ⟨r', -, herror⟩ | ⟨s, hrecords, hok⟩
  · rw [h] at herror
    cases herror
  · have heq : r = ⟨numeric, r.propositions, s⟩ := Except.ok.inj (h.symm.trans hok)
    have hnumeric : r.numeric = numeric := congrArg Request.numeric heq
    have hscope : r.scope = s := congrArg Request.scope heq
    exact ⟨hnumeric, hparse, hps, hscope ▸ hrecords⟩

lemma evaluate_eq_ok (h : r.evaluate = .ok e) :
    e.rows = r.rows ∧ Compound.evaluateAll r.rows r.compounds r.gathered.2 = .ok e.compounds := by
  rw [evaluate] at h
  dsimp only at h
  rw [compounds]
  cases hall : Compound.evaluateAll r.rows r.gathered.1 r.gathered.2 with
  | error f =>
      rw [hall] at h
      cases h
  | ok vectors =>
      rw [hall] at h
      obtain rfl := Except.ok.inj h
      exact ⟨rfl, rfl⟩

end Request

/-- What the evaluation of a compound finds, after the compounds in `done` were given their
vectors.  Each name that its program pushes is a simple proposition with a vector over all
rows, or it names one of these compounds, whose vector is there over all rows.  It is
neither the name of the compound itself nor a generated one.  Hence the program delivers
the value of the compound in each row. -/
structure Compound.Supplied (r : Request) (done : List (Compound × Bits)) (c : Compound)
    (bits : Bits) : Prop where
  evaluate : c.evaluate (r.gathered.2.fillAll done) r.rows = .ok bits
  pushes : ∀ n, .push n ∈ c.formula.compile →
    (r.scope.isSimple n = true ∧
      ∃ v, (r.gathered.2.fillAll done).vector n = .ok (some v) ∧ v.size = r.rows) ∨
    ∃ entry ∈ done, entry.1.anonymous = false ∧ entry.1.name = n ∧
      (r.gathered.2.fillAll done).vector n = .ok (some entry.2) ∧ entry.2.size = r.rows
  foreign : ∀ n, .push n ∈ c.formula.compile → n ≠ c.name ∧ ∀ k, n ≠ anonymousName k
  delivers : ∀ i < r.rows, ∃ b, bits[i]? = some b ∧
    c.formula.compile.Delivers ((r.gathered.2.fillAll done).bit i) b

/-- Where every name that a compound pushes has a vector over all rows, its program delivers
the value that the compound gets in each row. -/
lemma Compound.delivers_of_evaluate {rows : ℕ} {s : Scope} {c : Compound} {bits : Bits}
    (h : c.evaluate s rows = .ok bits)
    (hpush : ∀ n ∈ c.formula.atoms, ∃ v, s.vector n = .ok (some v) ∧ v.size = rows) :
    ∀ i < rows, ∃ b, bits[i]? = some b ∧ c.formula.compile.Delivers (s.bit i) b := by
  -- the truth values that the atoms have in a row
  let w (i : ℕ) (n : String) : Bool := (s.bit i n).toOption.getD false
  have hw : ∀ i < rows, ∀ n ∈ c.formula.atoms, s.bit i n = .ok (w i n) := by
    intro i hi n hn
    obtain ⟨v, hvector, hsize⟩ := hpush n hn
    have hbit := Scope.bit_eq_ok hvector (Array.getElem?_eq_getElem (hsize ▸ hi : i < v.size))
    show s.bit i n = .ok ((s.bit i n).toOption.getD false)
    rw [hbit]
    rfl
  have hrun : ∀ i < rows,
      Program.run (s.bit i) c.formula.compile [] = .ok [c.formula.eval (w i)] := by
    intro i hi
    have := Program.run_compile c.formula (hw i hi) [] []
    rwa [List.append_nil] at this
  have hvalues : c.evaluate s rows = .ok ((Array.range rows).map fun i => c.formula.eval (w i)) := by
    rw [evaluate]
    refine mapM_range fun i hi => ?_
    rw [Program.evaluate, hrun i hi]
  obtain rfl := Except.ok.inj (h.symm.trans hvalues)
  exact fun i hi => ⟨c.formula.eval (w i), by simp [hi], Program.delivers_of_run (hrun i hi)⟩

/-- A list that is related to another one is split where that is. -/
lemma exists_split_of_forall₂ {α β : Type} {R : α → β → Prop} {l : List α} {done rest : List β}
    {b : β} (h : List.Forall₂ R l (done ++ b :: rest)) :
    ∃ before a after, l = before ++ a :: after ∧ List.Forall₂ R before done ∧ R a b := by
  induction done generalizing l with
  | nil =>
      obtain ⟨a, after, hab, -, rfl⟩ := List.forall₂_cons_right_iff.mp h
      exact ⟨[], a, after, rfl, .nil, hab⟩
  | cons d done ih =>
      obtain ⟨a, l, had, hl, rfl⟩ := List.forall₂_cons_right_iff.mp h
      obtain ⟨before, a', after, rfl, hbefore, hab⟩ := ih hl
      exact ⟨a :: before, a', after, rfl, .cons had hbefore, hab⟩

/-- The propositions that get a column before a given one are among those of the request
before it. -/
lemma Proposition.exists_split_of_listed {ps before after : List Proposition} {p : Proposition}
    (h : listed ps = before ++ p :: after) :
    ∃ done rest, ps = done ++ p :: rest ∧ done.filter (isListed ps) = before := by
  obtain ⟨done, tail, hps, hdone, htail⟩ := List.filter_eq_append_iff.mp h
  obtain ⟨skipped, rest, rfl, hskipped, -, -⟩ := List.filter_eq_cons_iff.mp htail
  refine ⟨done ++ skipped, rest, by rw [hps, List.append_assoc], ?_⟩
  rw [List.filter_append, hdone, List.filter_eq_nil_iff.mpr hskipped, List.append_nil]

namespace Request

variable {numeric : Bool} {text : String} {r : Request} {e : Evaluation}

/-- The invariant of the evaluation holds when the first compound is evaluated. -/
lemma evaluates_gathered (hparse : Proposition.parse numeric text = .ok r.propositions)
    (hrecords : r.scope.Records (Proposition.names r.propositions)
      (Proposition.atoms r.propositions)) :
    r.gathered.2.Evaluates r.propositions [] r.rows fun i n =>
      ((Bits.enumerate r.numeric r.scope.sortedNames).lookup n).bind (·[i]?) := by
  have hplain := fun n => Proposition.unreserved (n := n) hparse
  have htexts : ∀ p ∈ r.propositions, Unreserved p.formula.text := fun p hp =>
    p.formula.unreserved_text fun n hn =>
      hplain n (.inr (Proposition.mem_atoms.mpr ⟨p, hp, hn⟩))
  obtain ⟨-, hagree⟩ :=
    Compound.gather_spec 0 (fun n _ => Request.knows_enumerated hrecords n) htexts
  exact Request.evaluates_start hrecords fun n hn => hagree n (hplain n hn)

/-- A compound of the evaluation belongs to a proposition of the request, and the named
propositions before that have been given their vectors. -/
structure StandsAt (r : Request) (done : List (Compound × Bits)) (c : Compound)
    (pre : List Proposition) (p : Proposition) (post : List Proposition) : Prop where
  split : r.propositions = pre ++ p :: post
  gives : p.Gives c
  earlier : ∀ q ∈ pre, ∀ n, q.name = some n →
    ∃ entry ∈ done, entry.1.anonymous = false ∧ entry.1.name = n ∧ entry.2.size = r.rows
  nodup : (done.map fun entry => entry.1.name).Nodup
  names : ∀ entry ∈ done, entry.1.name ∈ Proposition.names r.propositions ∨
    ∃ k, entry.1.name = anonymousName k

/-- Every compound of the evaluation stands somewhere. -/
lemma exists_standsAt (h : Request.ofText numeric text = .ok r) (he : e.rows = r.rows)
    (hof : e.IsOf numeric r.propositions) {done rest : List (Compound × Bits)} {c : Compound}
    {bits : Bits} (hsplit : e.compounds = done ++ (c, bits) :: rest) :
    ∃ pre p post, StandsAt r done c pre p post := by
  obtain ⟨-, hparse, hps, -⟩ := records_of_ok h
  have hplain := fun n => Proposition.unreserved (n := n) hparse
  have hvectors := hof.vectors
  rw [hsplit] at hvectors
  obtain ⟨before, p, after, hlisted, hbefore, hgives, -⟩ := exists_split_of_forall₂ hvectors
  obtain ⟨pre, post, hpre, hfilter⟩ := Proposition.exists_split_of_listed hlisted
  have hsub : (Proposition.names (Proposition.listed r.propositions)).Sublist
      (Proposition.names r.propositions) := List.filter_sublist.filterMap _
  obtain ⟨hnodup, hcases⟩ := Compound.nodup_numbered 0
    ((Proposition.nodup_names hps).sublist hsub) fun n hn => hplain n (.inl (hsub.subset hn))
  rw [← hof.compounds, hsplit, List.map_map, List.map_append] at hnodup
  rw [← hof.compounds, hsplit] at hcases
  refine ⟨pre, p, post, hpre, hgives, fun q hq n hqn => ?_, hnodup.of_append_left,
    fun entry hentry => ?_⟩
  · have hmem : q ∈ before := by
      rw [← hfilter, List.mem_filter]
      exact ⟨hq, by rw [Proposition.isListed, hqn]; rfl⟩
    obtain ⟨entry, hentry, hqgives, hqvector⟩ := exists_of_forall₂ hbefore.flip hmem
    have hname := hqgives.name
    rw [hqn] at hname
    refine ⟨entry, hentry, ?_, hname, hqvector.size.trans he⟩
    rw [hqgives.anonymous, hqn]
    rfl
  · have hmem := List.mem_map_of_mem (f := Prod.fst)
      (List.mem_append_left ((c, bits) :: rest) hentry)
    rcases hcases _ hmem with hname | ⟨k, -, hk⟩
    · exact .inl (hsub.subset hname)
    · exact .inr ⟨k, hk⟩

namespace StandsAt

variable {done : List (Compound × Bits)} {c : Compound} {pre post : List Proposition}
  {p : Proposition} {n : String}

/-- What a compound pushes are atoms of its proposition. -/
lemma mem_atoms (h : StandsAt r done c pre p post) (hn : .push n ∈ c.formula.compile) :
    n ∈ p.formula.atoms ∧ n ∈ Proposition.atoms r.propositions := by
  rw [Formula.push_mem_compile, h.gives.formula] at hn
  exact ⟨hn, Proposition.mem_atoms.mpr ⟨p, by rw [h.split]; simp, hn⟩⟩

/-- What a compound pushes has its vector. -/
lemma pushes (h : StandsAt r done c pre p post) (hr : Request.ofText numeric text = .ok r)
    (hn : .push n ∈ c.formula.compile) :
    (r.scope.isSimple n = true ∧
      ∃ v, (r.gathered.2.fillAll done).vector n = .ok (some v) ∧ v.size = r.rows) ∨
    ∃ entry ∈ done, entry.1.anonymous = false ∧ entry.1.name = n ∧
      (r.gathered.2.fillAll done).vector n = .ok (some entry.2) ∧ entry.2.size = r.rows := by
  obtain ⟨-, hparse, hps, hrecords⟩ := records_of_ok hr
  obtain ⟨hatom, hmentioned⟩ := h.mem_atoms hn
  have hstart := evaluates_gathered hparse hrecords
  by_cases hdef : n ∈ Proposition.names r.propositions
  · -- the definition of the name stands earlier
    refine .inr ?_
    have hearlier : n ∈ Proposition.names pre :=
      Proposition.mem_names_of_mem_atoms (h.split ▸ hps) hatom (h.split ▸ hdef)
    obtain ⟨q, hq, hqn⟩ := Proposition.mem_names.mp hearlier
    obtain ⟨entry, hentry, hnamed, rfl, hsize⟩ := h.earlier q hq n hqn
    obtain ⟨hsimple, hcompound⟩ := hstart.defined _ hdef
    exact ⟨entry, hentry, hnamed, rfl,
      Scope.vector_fillAll h.nodup hentry hsimple hcompound, hsize⟩
  · -- the enumeration gave the name its vector, and the compounds have other names
    refine .inl ⟨(hrecords.isSimple n).mpr ⟨hmentioned, hdef⟩, ?_⟩
    obtain ⟨v, hv, hsize, -⟩ := hstart.evaluated n (.inr ⟨hmentioned, hdef⟩)
    refine ⟨v, ?_, hsize⟩
    rw [Scope.vector_fillAll_of_ne fun entry hentry => ?_, hv]
    rintro rfl
    rcases h.names entry hentry with hname | ⟨k, hk⟩
    · exact hdef hname
    · exact (Proposition.unreserved hparse (.inr hmentioned)).ne_anonymousName k hk

/-- A compound pushes neither its own name nor a generated one. -/
lemma foreign (h : StandsAt r done c pre p post) (hr : Request.ofText numeric text = .ok r)
    (hn : .push n ∈ c.formula.compile) : n ≠ c.name ∧ ∀ k, n ≠ anonymousName k := by
  obtain ⟨-, hparse, hps, -⟩ := records_of_ok hr
  obtain ⟨hatom, hmentioned⟩ := h.mem_atoms hn
  have hfresh := (Proposition.unreserved hparse (.inr hmentioned)).ne_anonymousName
  refine ⟨?_, hfresh⟩
  have hname := h.gives.name
  cases hp : p.name with
  | none =>
      rw [hp] at hname
      obtain ⟨k, hk⟩ := hname
      exact hk ▸ hfresh k
  | some m =>
      rw [hp] at hname
      rintro rfl
      -- a name within its own definition is a clash
      refine hps pre.length ?_
      rw [h.split]
      refine (Proposition.clash_length_iff pre post p).mpr ⟨m, hp, .inr ?_⟩
      rw [Proposition.atoms_append, Proposition.atoms_singleton]
      exact List.mem_append_right _ (hname ▸ hatom)

end StandsAt

/-- Every compound of an accepted request is supplied when its evaluation starts. -/
lemma supplied_of_evaluate (h : Request.ofText numeric text = .ok r) (he : r.evaluate = .ok e)
    (hof : e.IsOf numeric r.propositions) {done rest : List (Compound × Bits)} {c : Compound}
    {bits : Bits} (hsplit : e.compounds = done ++ (c, bits) :: rest) : c.Supplied r done bits := by
  obtain ⟨hrows, hall⟩ := evaluate_eq_ok he
  rw [hsplit] at hall
  have hevaluate := Compound.evaluate_of_split hall
  obtain ⟨pre, p, post, hat⟩ := exists_standsAt h hrows hof hsplit
  refine ⟨hevaluate, fun n hn => hat.pushes h hn, fun n hn => hat.foreign h hn, ?_⟩
  refine Compound.delivers_of_evaluate hevaluate fun n hn => ?_
  rcases hat.pushes h (Formula.push_mem_compile.mpr hn) with ⟨-, v, hv⟩ | ⟨entry, -, -, -, hv⟩
  · exact ⟨v, hv⟩
  · exact ⟨entry.2, hv⟩

/-- **Accepted requests do not fail.** Once the names of a text are settled its request is
evaluated to its end and has a table, in either order of the rows.  A session under the same
mode answers with that table, whether or not it tells of its progress.  Each compound is
supplied when its evaluation starts. -/
theorem evaluate_progress (h : Request.ofText numeric text = .ok r) :
    ∃ e, r.evaluate = .ok e ∧ e.rows = r.rows ∧ e.compounds.map Prod.fst = r.compounds ∧
      (∀ ordered, Table.ofText numeric ordered text = .ok (e.table numeric ordered)) ∧
      (∀ s : Session, s.numeric = numeric → ∃ a, (s.compute text).1 = .ok a ∧
        a.outcome = .ok (e.table numeric s.ordered) ∧ a.log = s.tell r.summary) ∧
      ∀ done c bits rest, e.compounds = done ++ (c, bits) :: rest → c.Supplied r done bits := by
  obtain ⟨rfl, hparse, hps, hrecords⟩ := records_of_ok h
  obtain ⟨e, he, hof⟩ :=
    exists_isOf hps (fun n => Proposition.unreserved (n := n) hparse) hrecords
  obtain ⟨hrows, hall⟩ := evaluate_eq_ok he
  have htable : ∀ ordered, r.table ordered = .ok (e.table r.numeric ordered) := by
    intro ordered
    rw [table, he]
    rfl
  refine ⟨e, he, hrows, Compound.map_fst_evaluateAll hall, fun ordered => ?_, fun s hs => ?_,
    fun done c bits rest hsplit => supplied_of_evaluate h he hof hsplit⟩
  · rw [Table.ofText, h]
    dsimp only
    rw [htable]
  · rw [Session.compute, hs, h]
    dsimp only
    rw [htable]
    exact ⟨_, rfl, rfl, rfl⟩

/-- A compound without a name of its own finds the vectors of a constant and of a name. -/
theorem evaluate_progress_constant :
    ∃ r, Request.ofText true "p = !a, 0 v p" = .ok r ∧
      ∃ e, r.evaluate = .ok e ∧ e.rows = r.rows ∧ e.compounds.map Prod.fst = r.compounds ∧
        (∀ ordered, Table.ofText true ordered "p = !a, 0 v p" = .ok (e.table true ordered)) ∧
        (∀ s : Session, s.numeric = true → ∃ a, (s.compute "p = !a, 0 v p").1 = .ok a ∧
          a.outcome = .ok (e.table true s.ordered) ∧ a.log = s.tell r.summary) ∧
        ∀ done c bits rest, e.compounds = done ++ (c, bits) :: rest → c.Supplied r done bits :=
  have h : Request.ofText true "p = !a, 0 v p" =
      .ok ⟨true, [⟨some ⟨.ident, "p", ⟨1, 1, 0⟩⟩, .neg (.atom ⟨.ident, "a", ⟨1, 6, 5⟩⟩)⟩,
        ⟨none, .binary .or (.atom ⟨.number, "0", ⟨1, 9, 8⟩⟩) (.atom ⟨.ident, "p", ⟨1, 13, 12⟩⟩)⟩],
        ⟨[("a", none), ("0", none)], [("p", none)]⟩⟩ := by decide +kernel
  ⟨_, h, Request.evaluate_progress h⟩

end Request

end Propositional
