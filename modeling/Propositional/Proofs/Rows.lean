/-
The rows of the enumeration as assignments of truth values.

* `Bits.assigned`: the truth value of a name in a row, by the halves of the rows that
  `Bits.counting` goes through.
* `Bits.assigned_eq_testBit`: the names stand for the binary digits of the row.
* `Bits.value_enumerate`: the enumeration gives a constant its own value and any other
  name its value in the row.
* `Bits.rowOf`, `Bits.assigned_rowOf`: the row of an assignment, in which the names have
  the values of the assignment.
* `Bits.count_rowOf`: where some of the names are left out, every row of the others comes
  from equally many rows.
-/
import Propositional.Proofs.Vectors

namespace Propositional.Bits

/-! ### The assignment of a row -/

/-- The truth value that a name has in a row.  The first of the names is false in the
first half of the rows and true in the second, and each half goes through the rows of
the names after it. -/
def assigned : List String → ℕ → String → Bool
  | [], _, _ => false
  | m :: ms, i, n => if n = m then decide (2 ^ ms.length ≤ i) else assigned ms (i % 2 ^ ms.length) n

/-- The first vector of the counting is the first name's. -/
lemma getElem?_halves (k : ℕ) {i : ℕ} (hi : i < 2 ^ (k + 1)) :
    (Array.replicate (Nat.pow 2 k) false ++ Array.replicate (Nat.pow 2 k) true)[i]? =
      some (decide (2 ^ k ≤ i)) := by
  have hpow : Nat.pow 2 k = 2 ^ k := rfl
  rw [hpow, Array.getElem?_append, Array.size_replicate]
  split
  · next h => simp [h, Nat.not_le.mpr h]
  · next h =>
      have hle := Nat.not_lt.mp h
      have hlt : i - 2 ^ k < 2 ^ k := by omega
      simp [hle, hlt]

lemma getElem?_twice {bits : Bits} {k i : ℕ} (hbits : bits.size = 2 ^ k) (hi : i < 2 ^ (k + 1)) :
    (bits ++ bits)[i]? = bits[i % 2 ^ k]? := by
  rw [Array.getElem?_append, hbits]
  split
  · next h => rw [Nat.mod_eq_of_lt h]
  · next h =>
      have hmod : i % 2 ^ k = i - 2 ^ k := by
        rw [Nat.mod_eq_sub_mod (Nat.not_lt.mp h), Nat.mod_eq_of_lt (by omega)]
      rw [hmod]

/-- The counting gives every name its value in the row. -/
lemma lookup_counting {ns : List String} {n : String} (hn : n ∈ ns) :
    ∃ bits, (ns.zip (counting ns.length)).lookup n = some bits ∧
      ∀ i < 2 ^ ns.length, bits[i]? = some (assigned ns i n) := by
  induction ns with
  | nil => cases hn
  | cons m ns ih =>
      rw [List.length_cons, counting, List.zip_cons_cons, List.lookup_cons]
      by_cases heq : n = m
      · rw [heq, beq_self_eq_true]
        refine ⟨_, rfl, fun i hi => ?_⟩
        rw [getElem?_halves _ hi, assigned, if_pos rfl]
      · obtain ⟨bits, hbits, hvalue⟩ := ih ((List.mem_cons.mp hn).resolve_left heq)
        have hsize : bits.size = 2 ^ ns.length :=
          size_of_mem_counting (List.of_mem_zip (Entries.mem_of_lookup hbits)).2
        rw [beq_eq_false_iff_ne.mpr heq, List.zip_map_right]
        refine ⟨bits ++ bits, ?_, fun i hi => ?_⟩
        · have := Entries.lookup_map (fun _ (bits : Bits) => bits ++ bits)
            (ns.zip (counting ns.length)) n
          rw [hbits] at this
          exact this
        · rw [getElem?_twice hsize hi, hvalue _ (Nat.mod_lt _ (Nat.two_pow_pos _)), assigned,
            if_neg heq]

/-- The enumeration gives a constant its own value, and any other name its value in the
row. -/
lemma value_enumerate (numeric : Bool) {ns : List String} {n : String} (hn : n ∈ ns) {i : ℕ}
    (hi : i < 2 ^ ns.length) :
    ((enumerate numeric ns).lookup n).bind (·[i]?) =
      some ((constant? numeric n).getD (assigned ns i n)) := by
  have hentries : enumerate numeric ns = (ns.zip (counting ns.length)).map fun entry =>
      (entry.1, (constant? numeric entry.1).elim entry.2
        (Array.replicate (Nat.pow 2 ns.length))) := by
    rw [enumerate]
    refine List.map_congr_left fun entry _ => ?_
    obtain ⟨m, bits⟩ := entry
    dsimp only
    cases constant? numeric m <;> rfl
  obtain ⟨bits, hbits, hvalue⟩ := lookup_counting hn
  rw [hentries, Entries.lookup_map fun m bits =>
    (constant? numeric m).elim bits (Array.replicate (Nat.pow 2 ns.length)), hbits,
    Option.map_some, Option.bind_some]
  cases constant? numeric n with
  | none => exact hvalue i hi
  | some b => simp [hi]

/-- The names stand for the binary digits of the row, the first name for the highest. -/
lemma assigned_eq_testBit {ns : List String} (hns : ns.Nodup) {i j : ℕ}
    (hi : i < 2 ^ ns.length) {n : String} (hn : ns[j]? = some n) :
    assigned ns i n = i.testBit (ns.length - 1 - j) := by
  induction ns generalizing i j with
  | nil => cases hn
  | cons m ns ih =>
      obtain ⟨hm, hns⟩ := List.nodup_cons.mp hns
      rw [List.length_cons, pow_succ] at hi
      rw [assigned, List.length_cons, Nat.add_sub_cancel]
      cases j with
      | zero =>
          have hlt : i / 2 ^ ns.length < 2 := Nat.div_lt_of_lt_mul hi
          rw [if_pos (Option.some.inj hn).symm, Nat.sub_zero, Nat.testBit_eq_decide_div_mod_eq,
            decide_eq_decide, Nat.mod_eq_of_lt hlt, ← Nat.one_le_div_iff (Nat.two_pow_pos _)]
          omega
      | succ j =>
          rw [List.getElem?_cons_succ] at hn
          have hj : j < ns.length := (List.getElem?_eq_some_iff.mp hn).1
          have hne : n ≠ m := fun heq => hm (heq ▸ List.mem_of_getElem? hn)
          rw [if_neg hne, ih hns (Nat.mod_lt _ (Nat.two_pow_pos _)) hn,
            Nat.testBit_mod_two_pow, decide_eq_true (by omega), Bool.true_and]
          exact congrArg i.testBit (by omega)

/-- A row is known by its binary digits. -/
lemma eq_of_testBit {k i j : ℕ} (hi : i < 2 ^ k) (hj : j < 2 ^ k)
    (h : ∀ d < k, i.testBit (k - 1 - d) = j.testBit (k - 1 - d)) : i = j := by
  refine Nat.eq_of_testBit_eq fun b => ?_
  by_cases hb : b < k
  · have hdigit := h (k - 1 - b) (by omega)
    rwa [show k - 1 - (k - 1 - b) = b by omega] at hdigit
  · have hle : 2 ^ k ≤ 2 ^ b := Nat.pow_le_pow_right Nat.two_pos (Nat.not_lt.mp hb)
    rw [Nat.testBit_lt_two_pow (hi.trans_le hle), Nat.testBit_lt_two_pow (hj.trans_le hle)]

/-! ### The row of an assignment -/

/-- The row in which the names have the given truth values. -/
def rowOf : List String → (String → Bool) → ℕ
  | [], _ => 0
  | m :: ms, w => (if w m then 2 ^ ms.length else 0) + rowOf ms w

/-- Only the values of the names matter. -/
lemma rowOf_congr {ns : List String} {w w' : String → Bool} (h : ∀ n ∈ ns, w n = w' n) :
    rowOf ns w = rowOf ns w' := by
  induction ns with
  | nil => rfl
  | cons m ns ih =>
      rw [rowOf, rowOf, h m List.mem_cons_self, ih fun n hn => h n (List.mem_cons_of_mem _ hn)]

lemma rowOf_lt (ns : List String) (w : String → Bool) : rowOf ns w < 2 ^ ns.length := by
  induction ns with
  | nil => exact Nat.one_pos
  | cons m ns ih =>
      rw [rowOf, List.length_cons, pow_succ]
      split <;> omega

/-- In the row of an assignment the names have their values. -/
lemma assigned_rowOf {ns : List String} (w : String → Bool) {n : String} (hn : n ∈ ns) :
    assigned ns (rowOf ns w) n = w n := by
  induction ns with
  | nil => cases hn
  | cons m ns ih =>
      have hlt := rowOf_lt ns w
      rw [rowOf, assigned]
      by_cases heq : n = m
      · rw [if_pos heq, heq]
        cases w m with
        | false => simp [hlt]
        | true => simp
      · have hmod : ((if w m then 2 ^ ns.length else 0) + rowOf ns w) % 2 ^ ns.length =
            rowOf ns w := by
          split
          · rw [Nat.add_mod_left, Nat.mod_eq_of_lt hlt]
          · rw [Nat.zero_add, Nat.mod_eq_of_lt hlt]
        rw [if_neg heq, hmod]
        exact ih ((List.mem_cons.mp hn).resolve_left heq)

/-- Assignments have the same row if they give the names the same values. -/
lemma rowOf_eq_iff {ns : List String} {v w : String → Bool} :
    rowOf ns v = rowOf ns w ↔ ∀ n ∈ ns, v n = w n := by
  refine ⟨fun h n hn => ?_, rowOf_congr⟩
  calc
    v n = assigned ns (rowOf ns v) n := (assigned_rowOf v hn).symm
    _ = assigned ns (rowOf ns w) n := by rw [h]
    _ = w n := assigned_rowOf w hn

/-! ### Fewer names -/

/-- How often something holds in the rows, by the two halves of them. -/
lemma count_halves {p q r : ℕ → Prop} [DecidablePred p] [DecidablePred q] [DecidablePred r]
    {k : ℕ} (hq : ∀ i < 2 ^ k, (p i ↔ q i)) (hr : ∀ i < 2 ^ k, (p (2 ^ k + i) ↔ r i)) :
    Nat.count p (2 ^ (k + 1)) = Nat.count q (2 ^ k) + Nat.count r (2 ^ k) := by
  have hcongr : ∀ {p q : ℕ → Prop} [DecidablePred p] [DecidablePred q],
      (∀ i < 2 ^ k, (p i ↔ q i)) → Nat.count p (2 ^ k) = Nat.count q (2 ^ k) := by
    intro p q _ _ h
    rw [Nat.count_eq_card_filter_range, Nat.count_eq_card_filter_range,
      Finset.filter_congr fun i hi => h i (Finset.mem_range.mp hi)]
  rw [pow_succ, Nat.mul_two, Nat.count_add, hcongr hq, hcongr hr]

variable {ns ms : List String} {m : String} {i j : ℕ}

/-- The names after the first have the same values in both halves. -/
lemma assigned_halves (hi : i < 2 ^ ms.length) {n : String} (hn : n ≠ m) :
    assigned (m :: ms) i n = assigned ms i n ∧
      assigned (m :: ms) (2 ^ ms.length + i) n = assigned ms i n := by
  rw [assigned, assigned, if_neg hn, if_neg hn, Nat.add_mod_left, Nat.mod_eq_of_lt hi]
  exact ⟨rfl, rfl⟩

/-- The first name is false in the first half and true in the second. -/
lemma assigned_head (hi : i < 2 ^ ms.length) :
    assigned (m :: ms) i m = false ∧ assigned (m :: ms) (2 ^ ms.length + i) m = true := by
  rw [assigned, assigned, if_pos rfl, if_pos rfl]
  exact ⟨decide_eq_false (Nat.not_le.mpr hi), decide_eq_true (Nat.le_add_right _ _)⟩

/-- Where some of the names are left out, every row of the others comes from equally many
rows. -/
lemma count_rowOf (h : ns.Sublist ms) (hms : ms.Nodup) (hj : j < 2 ^ ns.length) :
    Nat.count (fun i => rowOf ns (assigned ms i) = j) (2 ^ ms.length) =
      2 ^ (ms.length - ns.length) := by
  induction h generalizing j with
  | slnil =>
      obtain rfl : j = 0 := Nat.lt_one_iff.mp hj
      rfl
  | @cons ns ms m hsub ih =>
      obtain ⟨hm, hms⟩ := List.nodup_cons.mp hms
      have hne : ∀ n ∈ ns, n ≠ m := fun n hn heq => hm (heq ▸ hsub.subset hn)
      have hhalves : Nat.count (fun i => rowOf ns (assigned (m :: ms) i) = j)
          (2 ^ (ms.length + 1)) =
            Nat.count (fun i => rowOf ns (assigned ms i) = j) (2 ^ ms.length) +
              Nat.count (fun i => rowOf ns (assigned ms i) = j) (2 ^ ms.length) := by
        refine count_halves (fun i hi => ?_) fun i hi => ?_
        · rw [rowOf_congr fun n hn => (assigned_halves hi (hne n hn)).1]
        · rw [rowOf_congr fun n hn => (assigned_halves hi (hne n hn)).2]
      rw [List.length_cons, hhalves, ih hms hj, Nat.succ_sub hsub.length_le, pow_succ,
        Nat.mul_two]
  | @cons_cons ns ms m hsub ih =>
      obtain ⟨hm, hms⟩ := List.nodup_cons.mp hms
      have hne : ∀ n ∈ ns, n ≠ m := fun n hn heq => hm (heq ▸ hsub.subset hn)
      have hfirst : ∀ i < 2 ^ ms.length,
          rowOf (m :: ns) (assigned (m :: ms) i) = rowOf ns (assigned ms i) := by
        intro i hi
        rw [rowOf, (assigned_head hi).1, rowOf_congr fun n hn => (assigned_halves hi (hne n hn)).1]
        exact Nat.zero_add _
      have hsecond : ∀ i < 2 ^ ms.length,
          rowOf (m :: ns) (assigned (m :: ms) (2 ^ ms.length + i)) =
            2 ^ ns.length + rowOf ns (assigned ms i) := by
        intro i hi
        rw [rowOf, (assigned_head hi).2, rowOf_congr fun n hn => (assigned_halves hi (hne n hn)).2]
        rfl
      have hnone : Nat.count (fun _ => False) (2 ^ ms.length) = 0 := by simp
      rw [List.length_cons, List.length_cons, Nat.succ_sub_succ]
      by_cases hlt : j < 2 ^ ns.length
      · -- the row is in the first half
        have hhalves : Nat.count (fun i => rowOf (m :: ns) (assigned (m :: ms) i) = j)
            (2 ^ (ms.length + 1)) =
              Nat.count (fun i => rowOf ns (assigned ms i) = j) (2 ^ ms.length) +
                Nat.count (fun _ => False) (2 ^ ms.length) := by
          refine count_halves (fun i hi => ?_) fun i hi => ?_
          · rw [hfirst i hi]
          · rw [hsecond i hi, iff_false]
            omega
        rw [hhalves, ih hms hlt, hnone, Nat.add_zero]
      · have hlt' : j - 2 ^ ns.length < 2 ^ ns.length := by
          rw [List.length_cons, pow_succ] at hj
          omega
        have hhalves : Nat.count (fun i => rowOf (m :: ns) (assigned (m :: ms) i) = j)
            (2 ^ (ms.length + 1)) =
              Nat.count (fun _ => False) (2 ^ ms.length) +
                Nat.count (fun i => rowOf ns (assigned ms i) = j - 2 ^ ns.length)
                  (2 ^ ms.length) := by
          refine count_halves (fun i hi => ?_) fun i hi => ?_
          · have := rowOf_lt ns (assigned ms i)
            rw [hfirst i hi, iff_false]
            omega
          · rw [hsecond i hi]
            omega
        rw [hhalves, ih hms hlt', hnone, Nat.zero_add]

end Propositional.Bits
