/-
What a scope knows about the vectors of its names.

* `sortNames_eq`: names are put in order by the insertion sort of the library.
* `Bits.lookup_enumerate`: every name that is enumerated has a vector over all rows.
* `Scope.vector_enumerate`: after the enumeration a simple proposition has its
  vector.
* `Scope.vector_reserve_of_ne`, `Scope.vector_fill_of_ne`, `Scope.vector_fill_self`:
  reserving and filling a name changes what is known of that name only.
* `Scope.bit_eq_ok`: a name with a vector has a truth value in each of its rows.
-/
import Mathlib.Data.List.Sort
import Mathlib.Tactic
import Propositional.Proofs.Entries
import Propositional.Scope

namespace Propositional

/-! ### Enumeration -/

/-- Putting a name into a list is the ordered insertion of the library. -/
lemma insertName_eq (n : String) (ns : List String) :
    insertName n ns = ns.orderedInsert (· ≤ ·) n := by
  induction ns with
  | nil => rfl
  | cons m ns ih => rw [insertName, List.orderedInsert_cons, ih]

/-- Ordering names is the insertion sort of the library. -/
lemma sortNames_eq (ns : List String) : sortNames ns = ns.insertionSort (· ≤ ·) := by
  induction ns with
  | nil => rfl
  | cons n ns ih =>
      rw [sortNames, List.foldr_cons, insertName_eq, List.insertionSort_cons, ← ih, sortNames]

lemma mem_sortNames {n : String} {ns : List String} : n ∈ sortNames ns ↔ n ∈ ns := by
  rw [sortNames_eq, List.mem_insertionSort]

lemma length_sortNames (ns : List String) : (sortNames ns).length = ns.length := by
  rw [sortNames_eq, List.length_insertionSort]

namespace Bits

lemma map_fst_enumerate (numeric : Bool) (ns : List String) :
    (enumerate numeric ns).map Prod.fst = ns := by
  have hzip : (enumerate numeric ns).map Prod.fst =
      (ns.zip (counting ns.length)).map Prod.fst := by
    rw [enumerate, List.map_map]
    refine List.map_congr_left fun entry _ => ?_
    obtain ⟨m, counted⟩ := entry
    dsimp only [Function.comp_apply]
    cases constant? numeric m <;> rfl
  rw [hzip]
  exact List.map_fst_zip (length_counting _).ge

lemma size_of_mem_enumerate {numeric : Bool} {ns : List String} {n : String} {bits : Bits}
    (h : (n, bits) ∈ enumerate numeric ns) : bits.size = Nat.pow 2 ns.length := by
  obtain ⟨⟨m, counted⟩, hmem, heq⟩ := List.mem_map.mp h
  have hcounted := size_of_mem_counting (List.of_mem_zip hmem).2
  dsimp only at heq
  cases hc : constant? numeric m with
  | some b =>
      rw [hc] at heq
      rw [← (Prod.mk.inj heq).2, Array.size_replicate]
  | none =>
      rw [hc] at heq
      rw [← (Prod.mk.inj heq).2, hcounted]

/-- A name that is enumerated has a vector over all rows. -/
lemma lookup_enumerate (numeric : Bool) {ns : List String} {n : String} (h : n ∈ ns) :
    ∃ bits, (enumerate numeric ns).lookup n = some bits ∧ bits.size = Nat.pow 2 ns.length := by
  have hkey : n ∈ (enumerate numeric ns).map Prod.fst := by rwa [map_fst_enumerate]
  obtain ⟨bits, hbits, hmem⟩ := Entries.exists_lookup hkey
  exact ⟨bits, hbits, size_of_mem_enumerate hmem⟩

end Bits

/-! ### Vectors in a scope -/

namespace Scope

variable {s : Scope} {n m : String}

/-- A name is simple if it is looked up among the simple propositions. -/
lemma lookup_simple_eq_none (h : s.isSimple n = false) : s.simple.lookup n = none := by
  rw [isSimple, ← Bool.not_eq_true, List.contains_iff_mem] at h
  exact Entries.lookup_eq_none_iff.mpr h

/-- The vector of a name that is not simple is looked up among the compounds. -/
lemma vector_eq (h : s.isSimple n = false) :
    s.vector n = (s.compound.lookup n).elim (.error (.unknownName n)) .ok := by
  rw [vector, lookup_simple_eq_none h]
  cases s.compound.lookup n <;> rfl

/-- After the enumeration a simple proposition has its vector. -/
lemma vector_enumerate (numeric : Bool) (h : s.isSimple n = true) :
    (s.enumerate numeric).vector n =
      .ok ((Bits.enumerate numeric s.sortedNames).lookup n) := by
  rw [isSimple, List.contains_iff_mem] at h
  obtain ⟨v, hv, -⟩ := Entries.exists_lookup h
  have hlookup := Entries.lookup_map
    (fun name (_ : Option Bits) => (Bits.enumerate numeric s.sortedNames).lookup name) s.simple n
  rw [hv, Option.map_some] at hlookup
  rw [vector, show (s.enumerate numeric).simple.lookup n = _ from hlookup]

lemma vector_reserve_of_ne (h : n ≠ m) : (s.reserve m).vector n = s.vector n := by
  have hlookup : (s.reserve m).compound.lookup n = s.compound.lookup n := by
    rw [reserve, List.lookup_append, List.lookup_cons, beq_eq_false_iff_ne.mpr h]
    exact Option.or_none
  rw [vector, vector, hlookup]
  rfl

lemma vector_fill_of_ne (bits : Bits) (h : n ≠ m) : (s.fill m bits).vector n = s.vector n := by
  have key : ∀ entries : List (String × Option Bits),
      (entries.map fun entry => if entry.1 = m then (m, some bits) else entry).lookup n =
        entries.lookup n := by
    intro entries
    induction entries with
    | nil => rfl
    | cons entry entries ih =>
        rw [List.map_cons, List.lookup_cons, List.lookup_cons, ih]
        by_cases heq : entry.1 = m
        · rw [if_pos heq, heq, beq_eq_false_iff_ne.mpr h]
        · rw [if_neg heq]
  rw [vector, vector, show (s.fill m bits).compound.lookup n = _ from key s.compound]
  rfl

lemma vector_fill_self (bits : Bits) (hs : s.isSimple n = false) (hc : s.isCompound n = true) :
    (s.fill n bits).vector n = .ok (some bits) := by
  have key : ∀ entries : List (String × Option Bits), n ∈ entries.map Prod.fst →
      (entries.map fun entry => if entry.1 = n then (n, some bits) else entry).lookup n =
        some (some bits) := by
    intro entries hn
    induction entries with
    | nil => cases hn
    | cons entry entries ih =>
        rw [List.map_cons, List.lookup_cons]
        by_cases heq : entry.1 = n
        · rw [if_pos heq, beq_self_eq_true]
        · rw [if_neg heq, beq_eq_false_iff_ne.mpr (Ne.symm heq)]
          exact ih ((List.mem_cons.mp hn).resolve_left (Ne.symm heq))
  rw [isCompound, List.contains_iff_mem] at hc
  rw [vector_eq (s := s.fill n bits) hs,
    show (s.fill n bits).compound.lookup n = _ from key s.compound hc]
  rfl

@[simp] lemma isCompound_fill (bits : Bits) : (s.fill m bits).isCompound n = s.isCompound n := by
  have hname : ∀ entry : String × Option Bits,
      (if entry.1 = m then (m, some bits) else entry).1 = entry.1 := by
    intro entry
    by_cases heq : entry.1 = m
    · rw [if_pos heq, heq]
    · rw [if_neg heq]
  have hnames : (s.fill m bits).compound.map Prod.fst = s.compound.map Prod.fst := by
    rw [fill, List.map_map]
    exact List.map_congr_left fun entry _ => hname entry
  rw [isCompound, isCompound, hnames]

@[simp] lemma isSimple_fill (bits : Bits) : (s.fill m bits).isSimple n = s.isSimple n := rfl

@[simp] lemma isSimple_enumerate (numeric : Bool) :
    (s.enumerate numeric).isSimple n = s.isSimple n := by
  rw [isSimple, isSimple, enumerate, List.map_map]
  rfl

/-- A name with a vector has a truth value in each of its rows. -/
lemma bit_eq_ok {bits : Bits} (h : s.vector n = .ok (some bits)) {i : ℕ} {b : Bool}
    (hi : bits[i]? = some b) : s.bit i n = .ok b := by
  obtain ⟨hlt, -⟩ := Array.getElem?_eq_some_iff.mp hi
  rw [bit, h]
  dsimp only
  rw [signedIndex_ofNat hlt, Option.bind_some, hi]

end Scope

end Propositional
