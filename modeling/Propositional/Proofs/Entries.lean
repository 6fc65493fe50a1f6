/-
Lists of entries under keys, and what is looked up in them.

* `Entries.mem_of_lookup`, `Entries.exists_lookup`: what is found under a key is there with it,
  and under every key something is found.
* `Entries.lookup_eq_some_iff_mem`: where all keys are different it is found exactly if it is
  there.
* `Entries.lookup_map`: where the values change, the look-ups change alike.
-/
import Mathlib.Data.List.Basic

namespace Propositional.Entries

variable {α β γ : Type} [BEq α] [LawfulBEq α] {entries : List (α × β)} {k : α} {b : β}

lemma mem_of_lookup (h : entries.lookup k = some b) : (k, b) ∈ entries := by
  obtain ⟨before, after, rfl, -⟩ := List.lookup_eq_some_iff.mp h
  exact List.mem_append_right before List.mem_cons_self

lemma lookup_eq_none_iff : entries.lookup k = none ↔ k ∉ entries.map Prod.fst := by
  rw [List.lookup_eq_none_iff, List.mem_map, not_exists]
  refine forall_congr' fun entry => ?_
  rw [not_and, bne_iff_ne, ne_comm]

lemma exists_lookup (h : k ∈ entries.map Prod.fst) :
    ∃ b, entries.lookup k = some b ∧ (k, b) ∈ entries := by
  cases hlookup : entries.lookup k with
  | none => exact absurd h (lookup_eq_none_iff.mp hlookup)
  | some b => exact ⟨b, rfl, mem_of_lookup hlookup⟩

lemma lookup_eq_some_iff_mem (hnodup : (entries.map Prod.fst).Nodup) :
    entries.lookup k = some b ↔ (k, b) ∈ entries := by
  refine ⟨mem_of_lookup, fun hmem => ?_⟩
  obtain ⟨before, after, rfl⟩ := List.append_of_mem hmem
  refine List.lookup_eq_some_iff.mpr ⟨before, after, rfl, fun entry hentry => ?_⟩
  rw [List.map_append, List.nodup_append] at hnodup
  rw [bne_iff_ne]
  exact (hnodup.2.2 _ (List.mem_map_of_mem hentry) k List.mem_cons_self).symm

/-- Where the values of a list of entries change, the look-ups change alike. -/
lemma lookup_map (g : α → β → γ) (entries : List (α × β)) (k : α) :
    (entries.map fun entry => (entry.1, g entry.1 entry.2)).lookup k =
      (entries.lookup k).map (g k) := by
  induction entries with
  | nil => rfl
  | cons entry entries ih =>
      rw [List.map_cons, List.lookup_cons, List.lookup_cons]
      by_cases heq : k = entry.1
      · rw [heq, beq_self_eq_true]
        rfl
      · rw [beq_eq_false_iff_ne.mpr heq]
        exact ih

end Propositional.Entries
