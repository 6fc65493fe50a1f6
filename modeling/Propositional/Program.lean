/-
Formulas as instructions for an operand stack.

* `Formula.compile`: operands before operators; brackets leave no trace.
* `Instruction.step`, `Program.run`: the effect of instructions on a stack whose
  top comes first.  A compound takes its right operand from the top.
* `Program.evaluate`: the value on top after a whole program.
* `Program.run_compile`: the instructions of a formula leave the stack as it was,
  with the truth value of the formula on top.
-/
import Propositional.Formula
import Propositional.Fault

namespace Propositional

/-- An instruction for the operand stack. -/
inductive Instruction where
  | push (name : String)
  | not
  | binary (kind : Token.Kind)
  deriving DecidableEq, Repr

/-- Instructions in the order of their execution. -/
abbrev Program := List Instruction

/-- The instructions that leave the truth value of a formula on the stack. -/
def Formula.compile : Formula → Program
  | atom name => [.push name]
  | neg f => f.compile ++ [.not]
  | binary c l r => l.compile ++ r.compile ++ [.binary (.binary c)]
  | group _ f => f.compile

/-- The effect of an instruction, where `value` gives the truth values of the
names. -/
def Instruction.step (value : String → Except Fault Bool) :
    Instruction → List Bool → Except Fault (List Bool)
  | .push name, stack => (value name).map (· :: stack)
  | .not, p :: stack => .ok ((!p) :: stack)
  | .binary kind, q :: p :: stack =>
    match kind.connective? with
    | some c => .ok (c.apply p q :: stack)
    | none => .error (.noConnective kind)
  | _, _ => .error .stackUnderflow

namespace Program

/-- The effect of instructions, one after the other. -/
def run (value : String → Except Fault Bool) :
    Program → List Bool → Except Fault (List Bool)
  | [], stack => .ok stack
  | i :: rest, stack =>
    match i.step value stack with
    | .ok stack' => run value rest stack'
    | .error fault => .error fault

/-- The value that a program leaves on top of an empty stack. -/
def evaluate (value : String → Except Fault Bool) (program : Program) : Except Fault Bool :=
  match run value program [] with
  | .ok (p :: _) => .ok p
  | .ok [] => .error .stackUnderflow
  | .error fault => .error fault

theorem run_append (value : String → Except Fault Bool) (p q : Program) (stack : List Bool) :
    run value (p ++ q) stack = (run value p stack).bind (run value q) := by
  induction p generalizing stack with
  | nil => rfl
  | cons i rest ih =>
    simp only [List.cons_append, run]
    cases i.step value stack with
    | error fault => rfl
    | ok stack' => exact ih stack'

/-- Instructions of a formula before others, when every atom has a truth value. -/
theorem run_compile {value : String → Except Fault Bool} {v : String → Bool} (f : Formula)
    (h : ∀ name ∈ f.atoms, value name = .ok (v name)) (rest : Program) (stack : List Bool) :
    run value (f.compile ++ rest) stack = run value rest (f.eval v :: stack) := by
  induction f generalizing rest stack with
  | atom name =>
    have hv := h name (List.mem_singleton_self name)
    simp [Formula.compile, run, Instruction.step, hv, Formula.eval, Except.map]
  | neg f ih =>
    rw [Formula.compile, List.append_assoc, ih h]
    rfl
  | binary c l r ihl ihr =>
    simp only [Formula.atoms, List.mem_append] at h
    rw [Formula.compile, List.append_assoc, List.append_assoc, ihl fun n hn => h n (.inl hn),
      ihr fun n hn => h n (.inr hn)]
    rfl
  | group _ f ih => exact ih h rest stack

end Program

end Propositional
