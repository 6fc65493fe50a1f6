/-
The rows of a table: every assignment of truth values to the simple
propositions, counted from all false to all true.

* `Bits`: one truth value per row.
* `constant?`: the names whose truth value is fixed.
* `Bits.counting`: the vectors of `n` names that run through all `2 ^ n`
  assignments, the first name changing the slowest.
* `sortNames`: names in increasing order by code points.
* `Bits.enumerate`: the vectors of the given names, the constants kept.
-/

namespace Propositional

/-- A truth vector: one truth value per row. -/
abbrev Bits := Array Bool

/-- The truth value of a constant.  Where truth values are numbers, `0` and `1`
are constants; where they are letters, `F` and `V` are, in either case. -/
def constant? (numeric : Bool) (name : String) : Option Bool :=
  let falses := if numeric then ["0", "⊥"] else ["F", "f", "⊥"]
  let trues := if numeric then ["1", "⊤"] else ["V", "v", "⊤"]
  if name ∈ falses then some false else if name ∈ trues then some true else none

/-- The vectors of `n` independent names.  The first is false in the first half
of the rows and true in the second; the others run twice through the
assignments of `n - 1` names. -/
def Bits.counting : Nat → List Bits
  | 0 => []
  | n + 1 =>
    (Array.replicate (Nat.pow 2 n) false ++ Array.replicate (Nat.pow 2 n) true) ::
      (counting n).map fun bits => bits ++ bits

/-- Puts a name into an increasing list. -/
def insertName (name : String) : List String → List String
  | [] => [name]
  | other :: rest => if name ≤ other then name :: other :: rest else other :: insertName name rest

/-- Names in increasing order. -/
def sortNames (names : List String) : List String := names.foldr insertName []

/-- The vectors of the given names over all assignments.  A constant has its own
value in every row. -/
def Bits.enumerate (numeric : Bool) (names : List String) : List (String × Bits) :=
  (names.zip (counting names.length)).map fun (name, bits) =>
    match constant? numeric name with
    | some b => (name, Array.replicate (Nat.pow 2 names.length) b)
    | none => (name, bits)

theorem Bits.length_counting (n : Nat) : (counting n).length = n := by
  induction n with
  | zero => rfl
  | succ n ih => simp [counting, ih]

theorem Bits.size_of_mem_counting {n : Nat} {bits : Bits} (h : bits ∈ counting n) :
    bits.size = Nat.pow 2 n := by
  induction n generalizing bits with
  | zero => simp [counting] at h
  | succ n ih =>
    simp only [counting, List.mem_cons, List.mem_map] at h
    obtain rfl | ⟨half, hmem, rfl⟩ := h
    · simp; omega
    · simp [ih hmem]; omega

end Propositional
