/-
Lines and numbers in a text.

* `Text.lines`: what stands between the line feeds of a text; `Text.lines_join` and
  `Text.lines_intercalate` find the lines again that a text was put together from.
* `Text.number`: the number at the front of a text; `Text.number_toDigits` reads it where
  no digit follows it.
-/
import Mathlib.Data.List.TakeWhile
import Mathlib.Tactic

namespace Propositional.Text

/-! ### Lines -/

/-- The lines of a text, as lists of characters.  Behind a last line feed there is an empty
line. -/
def lines (text : String) : List (List Char) := text.toList.splitOn '\n'

/-- Pieces that are each ended by a separator are found again, with nothing behind the last
separator. -/
lemma splitOn_flatMap {α : Type} [DecidableEq α] {x : α} {pieces : List (List α)}
    (h : ∀ piece ∈ pieces, x ∉ piece) :
    (pieces.flatMap fun piece => piece ++ [x]).splitOn x = pieces ++ [[]] := by
  induction pieces with
  | nil => exact List.splitOn_nil x
  | cons piece pieces ih =>
      rw [List.forall_mem_cons] at h
      rw [List.flatMap_cons, List.append_assoc, List.singleton_append,
        List.splitOn_append_cons_self_of_not_mem h.1, ih h.2, List.cons_append]

/-- Lines that are each ended by a line feed are found again. -/
lemma lines_join {ls : List String} (h : ∀ l ∈ ls, '\n' ∉ l.toList) :
    lines (String.join (ls.map fun l => l ++ "\n")) = ls.map String.toList ++ [[]] := by
  have htext : (String.join (ls.map fun l => l ++ "\n")).toList =
      (ls.map String.toList).flatMap fun l => l ++ ['\n'] := by
    rw [String.toList_join, List.flatMap_map, List.flatMap_map]
    exact List.flatMap_congr fun l _ => String.toList_append
  rw [lines, htext, splitOn_flatMap (List.forall_mem_map.mpr h)]

/-- Lines with line feeds between them are found again. -/
lemma lines_intercalate {ls : List String} (hne : ls ≠ []) (h : ∀ l ∈ ls, '\n' ∉ l.toList) :
    lines ("\n".intercalate ls) = ls.map String.toList := by
  have hne' : ls.map String.toList ≠ [] := mt List.map_eq_nil_iff.mp hne
  rw [lines, String.toList_intercalate]
  exact List.splitOn_intercalate '\n' (List.forall_mem_map.mpr h) hne'

/-! ### Numbers -/

/-- The number whose digits stand at the front of a text, and what follows it. -/
def number (cs : List Char) : ℕ × List Char :=
  (Nat.ofDigitChars 10 (cs.takeWhile Char.isDigit) 0, cs.dropWhile Char.isDigit)

/-- A number is read from its digits, if no other digit follows them. -/
lemma number_toDigits (n : ℕ) {rest : List Char} (h : ∀ c ∈ rest.head?, c.isDigit = false) :
    number (Nat.toDigits 10 n ++ rest) = (n, rest) := by
  have hdigits : ∀ c ∈ Nat.toDigits 10 n, c.isDigit = true :=
    fun c hc => Nat.isDigit_of_mem_toDigits (by decide) le_rfl hc
  have htake : rest.takeWhile Char.isDigit = [] := by
    cases rest with
    | nil => rfl
    | cons c rest => exact List.takeWhile_cons_of_neg (by simp [h c rfl])
  have hdrop : rest.dropWhile Char.isDigit = rest := by
    cases rest with
    | nil => rfl
    | cons c rest => exact List.dropWhile_cons_of_neg (by simp [h c rfl])
  rw [number, List.takeWhile_append_of_pos hdigits, List.dropWhile_append_of_pos hdigits, htake,
    hdrop, List.append_nil, Nat.ofDigitChars_ten_toDigits]

lemma isDigit_of_mem_head? {cs rest : List Char} {c : Char} (hcs : cs.head? = some c)
    (hc : c.isDigit = false) : ∀ d ∈ (cs ++ rest).head?, d.isDigit = false := by
  intro d hd
  rw [List.head?_append, hcs, Option.some_or] at hd
  rwa [← Option.some.inj hd]

/-- Texts that begin with numbers and do not go on with a digit are equal only if the numbers
are. -/
lemma toDigits_append_inj {m n : ℕ} {cs ds : List Char} (hcs : ∀ c ∈ cs.head?, c.isDigit = false)
    (hds : ∀ c ∈ ds.head?, c.isDigit = false)
    (h : Nat.toDigits 10 m ++ cs = Nat.toDigits 10 n ++ ds) : m = n ∧ cs = ds := by
  have hnumbers := congrArg number h
  rw [number_toDigits m hcs, number_toDigits n hds] at hnumbers
  exact Prod.mk.inj hnumbers

end Propositional.Text
