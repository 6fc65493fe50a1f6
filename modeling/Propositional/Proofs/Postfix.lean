/-
Instructions are formulas in another writing, without the brackets.

* `Program.build`: instructions run on formulas in place of truth values, so that they put
  the formula together that they compute.
* `Formula.build_compile`: the instructions of a formula build it again, without its brackets
  and on top of what was there; hence `Formula.compile_eq_iff`.
* `Program.run_of_build`: the truth values on the stack are those of the formulas that were
  built, over what the stack held before.
* `Program.Pushes`: instructions that put a truth value on top of any stack and take nothing
  from that stack.
* `Formula.compile_represents`: the instructions of a formula determine it up to its brackets,
  and push its truth value.
-/
import Propositional.Proofs.Progress

namespace Propositional

/-! ### Formulas on the stack -/

/-- A formula without its brackets. -/
def Formula.unbracketed : Formula → Formula
  | atom name => atom name
  | neg f => neg f.unbracketed
  | binary c l r => binary c l.unbracketed r.unbracketed
  | group _ f => f.unbracketed

/-- The effect of an instruction on a stack of formulas: it builds the formula whose truth
value it would have computed. -/
def Instruction.build : Instruction → List Formula → Option (List Formula)
  | .push name, fs => some (.atom name :: fs)
  | .not, f :: fs => some (.neg f :: fs)
  | .binary kind, r :: l :: fs => kind.connective?.map fun c => .binary c l r :: fs
  | _, _ => none

/-- The formulas that instructions build, one after the other. -/
def Program.build (program : Program) (fs : List Formula) : Option (List Formula) :=
  program.foldlM (fun fs i => i.build fs) fs

lemma Program.build_append (p q : Program) (fs : List Formula) :
    build (p ++ q) fs = (p.build fs).bind q.build := List.foldlM_append

lemma Program.build_cons_eq_some_iff {i : Instruction} {rest : Program}
    {fs fs' : List Formula} :
    build (i :: rest) fs = some fs' ↔
      ∃ gs, i.build fs = some gs ∧ rest.build gs = some fs' := by
  rw [build, List.foldlM_cons, Option.bind_eq_bind, Option.bind_eq_some_iff]
  rfl

/-- What was built in front of an instruction, which can build on it. -/
lemma Program.exists_build_of_split {before after : Program} {i : Instruction}
    {fs fs' : List Formula} (h : build (before ++ i :: after) fs = some fs') :
    ∃ gs gs', before.build fs = some gs ∧ i.build gs = some gs' := by
  rw [build_append, Option.bind_eq_some_iff] at h
  obtain ⟨gs, hbefore, h⟩ := h
  obtain ⟨gs', hi, -⟩ := build_cons_eq_some_iff.mp h
  exact ⟨gs, gs', hbefore, hi⟩

namespace Formula

variable {w : String → Bool}

/-- The instructions of a formula build it again, without its brackets. -/
lemma build_compile (f : Formula) (fs : List Formula) :
    f.compile.build fs = some (f.unbracketed :: fs) := by
  induction f generalizing fs with
  | atom n => rfl
  | neg f ih =>
      rw [compile, Program.build_append, ih]
      rfl
  | binary c l r ihl ihr =>
      rw [compile, Program.build_append, Program.build_append, ihl, Option.bind_some, ihr]
      rfl
  | group b f ih => exact ih fs

/-- Brackets leave no trace in the instructions. -/
lemma compile_unbracketed (f : Formula) : f.unbracketed.compile = f.compile := by
  induction f with
  | atom n => rfl
  | neg f ih => rw [unbracketed, compile, ih, compile]
  | binary c l r ihl ihr => rw [unbracketed, compile, ihl, ihr, compile]
  | group b f ih => exact ih

/-- Nor do they in the truth value. -/
lemma eval_unbracketed (f : Formula) : f.unbracketed.eval w = f.eval w := by
  induction f with
  | atom n => rfl
  | neg f ih => rw [unbracketed, eval, ih, eval]
  | binary c l r ihl ihr => rw [unbracketed, eval, ihl, ihr, eval]
  | group b f ih => exact ih

/-- Formulas with the same instructions differ in their brackets only. -/
lemma compile_eq_iff {f g : Formula} :
    f.compile = g.compile ↔ f.unbracketed = g.unbracketed := by
  constructor
  · intro h
    have hbuilt : some [f.unbracketed] = some [g.unbracketed] := by
      rw [← f.build_compile [], h, g.build_compile []]
    exact List.singleton_inj.mp (Option.some.inj hbuilt)
  · intro h
    rw [← f.compile_unbracketed, h, g.compile_unbracketed]

/-- Where brackets change the tree they change the instructions. -/
example : compile (.binary .implies (.atom "p")
      (.group .round (.binary .implies (.atom "q") (.atom "r")))) ≠
    compile (.binary .implies (.binary .implies (.atom "p") (.atom "q")) (.atom "r")) := by
  decide

end Formula

/-! ### Truth values follow formulas -/

section Values

variable {value : String → Except Fault Bool} {w : String → Bool}

/-- An instruction that builds a formula computes its truth value, and leaves alone what is
below its operands. -/
lemma Instruction.step_of_build {i : Instruction} {fs fs' : List Formula}
    (h : i.build fs = some fs') (hw : ∀ n, i = .push n → value n = .ok (w n))
    (stack : List Bool) :
    i.step value (fs.map (Formula.eval w) ++ stack) =
      .ok (fs'.map (Formula.eval w) ++ stack) := by
  cases i with
  | push n =>
      obtain rfl := Option.some.inj h
      rw [step, hw n rfl]
      rfl
  | not =>
      cases fs with
      | nil => cases h
      | cons f fs =>
          obtain rfl := Option.some.inj h
          rfl
  | binary kind =>
      -- the right operand is on top of the left one
      rcases fs with - | ⟨r, - | ⟨l, fs⟩⟩
      · cases h
      · cases h
      · obtain ⟨c, hc, rfl⟩ := Option.map_eq_some_iff.mp h
        simp only [List.map_cons, List.cons_append, step, hc, Formula.eval]

namespace Program

/-- Instructions that build formulas compute their truth values. -/
lemma run_of_build {program : Program} {fs fs' : List Formula}
    (h : program.build fs = some fs') (hw : ∀ n, .push n ∈ program → value n = .ok (w n))
    (stack : List Bool) :
    run value program (fs.map (Formula.eval w) ++ stack) =
      .ok (fs'.map (Formula.eval w) ++ stack) := by
  induction program generalizing fs with
  | nil =>
      obtain rfl := Option.some.inj h
      rfl
  | cons i rest ih =>
      obtain ⟨gs, hi, hrest⟩ := build_cons_eq_some_iff.mp h
      rw [run, Instruction.step_of_build hi (fun n hn => hw n (hn ▸ List.mem_cons_self)) stack]
      exact ih hrest fun n hn => hw n (List.mem_cons_of_mem i hn)

/-- Instructions that leave a truth value on top of any stack and take nothing from that
stack: in front of each of them, what it takes lies above the stack, and what lies there does
not depend on the stack. -/
structure Pushes (value : String → Except Fault Bool) (program : Program) (b : Bool) :
    Prop where
  operands : ∀ before i after, program = before ++ i :: after →
    ∃ above, i.arity ≤ above.length ∧ ∀ stack, run value before stack = .ok (above ++ stack)
  leaves : ∀ stack, run value program stack = .ok (b :: stack)

/-- Instructions that build a formula push its truth value. -/
lemma pushes_of_build {program : Program} {f : Formula} (h : program.build [] = some [f])
    (hw : ∀ n, .push n ∈ program → value n = .ok (w n)) :
    program.Pushes value (f.eval w) := by
  refine ⟨fun before i after hsplit => ?_, run_of_build h hw⟩
  subst hsplit
  obtain ⟨fs, fs', hbefore, hi⟩ := exists_build_of_split h
  have hstep := Instruction.step_of_build hi
    (fun n hn => hw n (hn ▸ List.mem_append_right _ List.mem_cons_self)) []
  refine ⟨fs.map (Formula.eval w), ?_, run_of_build hbefore fun n hn =>
    hw n (List.mem_append_left _ hn)⟩
  rw [List.append_nil] at hstep
  exact Instruction.arity_le hstep

end Program

end Values

/-! ### Vectors that reach a row -/

namespace Scope

/-- Whether a name has a vector that is long enough for a row.  Rows below zero count from
the end. -/
def HasRow (s : Scope) (row : ℤ) (n : String) : Prop :=
  ∃ bits, s.vector n = .ok (some bits) ∧ -(bits.size : ℤ) ≤ row ∧ row < bits.size

/-- The truth value that the vector of a name has in a row.  Rows are counted around the
vector, so that those below zero count from its end. -/
def valueAt (s : Scope) (row : ℤ) (n : String) : Option Bool :=
  match s.vector n with
  | .ok (some bits) => bits[(row % bits.size).toNat]?
  | _ => none

end Scope

/-- A place counted from either end is the one counted around. -/
lemma signedIndex_eq_emod {size : ℕ} {row : ℤ} (hlow : -(size : ℤ) ≤ row)
    (hhigh : row < size) : signedIndex size row = some (row % size).toNat := by
  have hplace : (if 0 ≤ row then row else size + row) = row % size := by
    split
    · next h => exact (Int.emod_eq_of_lt h hhigh).symm
    · next h =>
      rw [← Int.add_emod_left, Int.emod_eq_of_lt (by omega) (by omega)]
  have hsize : (size : ℤ) ≠ 0 := by omega
  rw [signedIndex, hplace]
  exact if_pos ⟨Int.emod_nonneg row hsize, Int.emod_lt_of_pos row (by omega)⟩

/-- A name whose vector is long enough has a truth value in the row. -/
lemma Scope.HasRow.exists_value {s : Scope} {row : ℤ} {n : String} (h : s.HasRow row n) :
    ∃ b, s.valueAt row n = some b ∧ s.bit row n = .ok b := by
  obtain ⟨bits, hvector, hlow, hhigh⟩ := h
  have hindex := signedIndex_eq_emod hlow hhigh
  have hlt := signedIndex_lt hindex
  have hget := Array.getElem?_eq_getElem hlt
  refine ⟨bits[(row % bits.size).toNat], ?_, ?_⟩
  · rw [valueAt, hvector]
    exact hget
  · rw [bit, hvector]
    dsimp only
    rw [hindex, Option.bind_some, hget]

/-! ### Instructions represent formulas -/

/-- **Postfix code.** The instructions of a formula determine it up to its brackets.  In
every row that the vectors of its atoms reach, they push the truth value that it has by
recursion on its tree, on top of any stack and without touching that stack. -/
theorem Formula.compile_represents (f : Formula) :
    (∀ g : Formula, f.compile = g.compile ↔ f.unbracketed = g.unbracketed) ∧
      ∀ (s : Scope) (row : ℤ), (∀ n ∈ f.atoms, s.HasRow row n) →
        ∃ b, f.Means [] (s.valueAt row) b ∧ f.compile.Pushes (s.bit row) b := by
  refine ⟨fun g => compile_eq_iff, fun s row h => ?_⟩
  -- the truth values that the atoms have in the row
  let w (n : String) : Bool := (s.valueAt row n).getD false
  have hw : ∀ n ∈ f.atoms, s.valueAt row n = some (w n) ∧ s.bit row n = .ok (w n) := by
    intro n hn
    obtain ⟨b, hvalue, hbit⟩ := (h n hn).exists_value
    have hwn : w n = b := by
      show (s.valueAt row n).getD false = b
      rw [hvalue, Option.getD_some]
    rw [hwn]
    exact ⟨hvalue, hbit⟩
  have hmeans : f.Means [] (s.valueAt row) (f.eval w) :=
    f.means_eval fun n hn => .given List.not_mem_nil (hw n hn).1
  have hpushes : f.compile.Pushes (s.bit row) (f.unbracketed.eval w) :=
    Program.pushes_of_build (f.build_compile [])
      fun n hn => (hw n (push_mem_compile.mp hn)).2
  rw [f.eval_unbracketed] at hpushes
  exact ⟨f.eval w, hmeans, hpushes⟩

/-- The sides of an implication keep their places, also where one is bracketed. -/
theorem Formula.compile_represents_implies :
    ∃ (f : Formula) (s : Scope),
      f = .binary .implies (.group .round (.atom "p")) (.neg (.atom "q")) ∧
      s = ⟨[("p", some #[false, true])], [("q", some #[false, true, true])]⟩ ∧
      (∀ n ∈ f.atoms, s.HasRow 1 n) ∧
      (∀ g : Formula, f.compile = g.compile ↔ f.unbracketed = g.unbracketed) ∧
        ∃ b, f.Means [] (s.valueAt 1) b ∧ f.compile.Pushes (s.bit 1) b := by
  have h : ∀ n ∈ ["p", "q"], Scope.HasRow
      ⟨[("p", some #[false, true])], [("q", some #[false, true, true])]⟩ 1 n := by
    intro n hn
    rcases List.mem_pair.mp hn with rfl | rfl
    · exact ⟨#[false, true], rfl, by decide, by decide⟩
    · exact ⟨#[false, true, true], rfl, by decide, by decide⟩
  obtain ⟨hsame, hpushes⟩ := compile_represents
    (.binary .implies (.group .round (.atom "p")) (.neg (.atom "q")))
  exact ⟨_, _, rfl, rfl, h, hsame, hpushes _ 1 h⟩

end Propositional
