/-
What the formulas of a request mean.

* `Connective.denote`: the truth functions of the five connectives, and
  `Connective.apply_eq_denote`.
* `Formula.Means`: the truth value of a formula by recursion on its tree, where the
  name of a proposition stands for that proposition's formula and any other atom has
  the value that it is given.
* `Formula.Means.eq`, `Formula.means_eval`: where no two names clash a formula means
  one truth value at most, and what its atoms mean fixes it.
-/
import Propositional.Proofs.Naming

namespace Propositional

/-! ### Connectives -/

/-- The truth function of a connective. -/
def Connective.denote : Connective → Bool → Bool → Bool
  | .and, p, q => p && q
  | .or, p, q => p || q
  | .xor, p, q => p ^^ q
  | .implies, p, q => !p || q
  | .iff, p, q => p == q

/-- Compounds are computed by the truth function of their connective. -/
lemma Connective.apply_eq_denote (c : Connective) (p q : Bool) : c.apply p q = c.denote p q := by
  cases c <;> cases p <;> cases q <;> rfl

/-! ### Definitions in a request -/

namespace Proposition

variable {ps done rest : List Proposition} {p q : Proposition}

lemma mem_names {n : String} : n ∈ names ps ↔ ∃ p ∈ ps, p.name = some n := List.mem_filterMap

lemma mem_atoms {n : String} : n ∈ atoms ps ↔ ∃ p ∈ ps, n ∈ p.formula.atoms := List.mem_flatMap

lemma mem_names_or_mem_atoms {n : String} :
    n ∈ names ps ∨ n ∈ atoms ps ↔ ∃ p ∈ ps, p.name = some n ∨ n ∈ p.formula.atoms := by
  rw [mem_names, mem_atoms, ← exists_or]
  simp only [← and_or_left]

/-- An atom of a proposition that is defined at all is defined before it. -/
lemma mem_names_of_mem_atoms (h : ∀ i, ¬ Clash (done ++ p :: rest) i) {n : String}
    (ha : n ∈ p.formula.atoms) (hn : n ∈ names (done ++ p :: rest)) : n ∈ names done := by
  obtain ⟨q, hq, hqn⟩ := mem_names.mp hn
  rcases List.mem_append.mp hq with hq | hq
  · exact mem_names.mpr ⟨q, hq, hqn⟩
  · -- a definition from here on clashes with the atom
    obtain ⟨k, hk⟩ := List.mem_iff_getElem?.mp hq
    have hget : (done ++ p :: rest)[done.length + k]? = some q := by
      rw [List.getElem?_append_right (Nat.le_add_right _ _), Nat.add_sub_cancel_left, hk]
    have hmem : p ∈ (done ++ p :: rest).take (done.length + k + 1) := by
      rw [Nat.add_assoc, List.take_length_add_append]
      exact List.mem_append_right _ List.mem_cons_self
    exact absurd ⟨q, n, hget, hqn, .inr (mem_atoms.mpr ⟨p, hmem, ha⟩)⟩ (h (done.length + k))

lemma eq_of_name_eq (h : ∀ i, ¬ Clash ps i) {n : String} (hp : p ∈ ps) (hq : q ∈ ps)
    (hpn : p.name = some n) (hqn : q.name = some n) : p = q := by
  obtain ⟨i, hi⟩ := List.mem_iff_getElem?.mp hp
  obtain ⟨j, hj⟩ := List.mem_iff_getElem?.mp hq
  have hearlier : ∀ {i j : ℕ} {p q : Proposition}, ps[i]? = some p → ps[j]? = some q →
      p.name = some n → q.name = some n → ¬ i < j := by
    intro i j p q hi hj hpn hqn hij
    have hmem : p ∈ ps.take j := by
      refine List.mem_iff_getElem?.mpr ⟨i, ?_⟩
      rw [List.getElem?_take_of_lt hij, hi]
    exact h j ⟨q, n, hj, hqn, .inl (mem_names.mpr ⟨p, hmem, hpn⟩)⟩
  obtain rfl : i = j := by
    have := hearlier hi hj hpn hqn
    have := hearlier hj hi hqn hpn
    omega
  exact Option.some.inj (hi.symm.trans hj)

end Proposition

/-! ### Truth values -/

/-- The truth value of a formula of a request, by recursion on its tree.  The name of
a proposition has the truth value of that proposition's own formula, and any other
atom has the one that is given for it. -/
inductive Formula.Means (ps : List Proposition) (v : String → Option Bool) :
    Formula → Bool → Prop
  | named {p : Proposition} {n : String} {b : Bool} (hp : p ∈ ps) (hn : p.name = some n)
      (h : Means ps v p.formula b) : Means ps v (.atom n) b
  | given {n : String} {b : Bool} (hn : n ∉ Proposition.names ps) (h : v n = some b) :
      Means ps v (.atom n) b
  | neg {f : Formula} {b : Bool} (h : Means ps v f b) : Means ps v (.neg f) (!b)
  | binary {c : Connective} {l r : Formula} {b d : Bool} (hl : Means ps v l b)
      (hr : Means ps v r d) : Means ps v (.binary c l r) (c.denote b d)
  | group {b : Bracket} {f : Formula} {d : Bool} (h : Means ps v f d) : Means ps v (.group b f) d

namespace Formula

variable {ps : List Proposition} {v : String → Option Bool}

/-- A formula means one truth value at most. -/
lemma Means.eq (hps : ∀ i, ¬ Proposition.Clash ps i) {f : Formula} {b d : Bool}
    (hb : f.Means ps v b) (hd : f.Means ps v d) : b = d := by
  induction hb generalizing d with
  | named hp hn h ih =>
      cases hd with
      | named hq hqn h' =>
          rw [Proposition.eq_of_name_eq hps hq hp hqn hn] at h'
          exact ih h'
      | given hnot h' => exact absurd (Proposition.mem_names.mpr ⟨_, hp, hn⟩) hnot
  | given hnot h =>
      cases hd with
      | named hq hqn h' => exact absurd (Proposition.mem_names.mpr ⟨_, hq, hqn⟩) hnot
      | given hnot' h' => exact Option.some.inj (h.symm.trans h')
  | neg h ih =>
      cases hd with
      | neg h' => rw [ih h']
  | binary hl hr ihl ihr =>
      cases hd with
      | binary hl' hr' => rw [ihl hl', ihr hr']
  | group h ih =>
      cases hd with
      | group h' => exact ih h'

/-- What its atoms mean fixes what a formula means. -/
lemma means_eval {w : String → Bool} (f : Formula)
    (h : ∀ n ∈ f.atoms, (atom n).Means ps v (w n)) : f.Means ps v (f.eval w) := by
  induction f with
  | atom n => exact h n (List.mem_singleton_self n)
  | neg f ih => exact (ih h).neg
  | binary c l r ihl ihr =>
      rw [eval, c.apply_eq_denote]
      exact (ihl fun n hn => h n (List.mem_append_left _ hn)).binary
        (ihr fun n hn => h n (List.mem_append_right _ hn))
  | group b f ih => exact (ih h).group

/-- A defined name means what its formula means. -/
lemma means_atom_iff (hps : ∀ i, ¬ Proposition.Clash ps i) {p : Proposition} (hp : p ∈ ps)
    {n : String} (hn : p.name = some n) (b : Bool) :
    (atom n).Means ps v b ↔ p.formula.Means ps v b := by
  constructor
  · intro h
    cases h with
    | named hq hqn h =>
        rwa [Proposition.eq_of_name_eq hps hq hp hqn hn] at h
    | given hnot h => exact absurd (Proposition.mem_names.mpr ⟨p, hp, hn⟩) hnot
  · exact .named hp hn

/-- An atom that is no name means what is given for it. -/
lemma means_atom_given_iff {n : String} (hn : n ∉ Proposition.names ps) (b : Bool) :
    (atom n).Means ps v b ↔ v n = some b := by
  constructor
  · intro h
    cases h with
    | named hq hqn h => exact absurd (Proposition.mem_names.mpr ⟨_, hq, hqn⟩) hn
    | given hnot h => exact h
  · exact .given hn

end Formula

end Propositional
