/-
What the tokens of a text are, as far as names and places go.

* `Source.pairwise_offset`: the tokens of a text, its end included, stand at
  increasing places.
* `Unreserved`: the texts that are no generated name, since they begin with another
  sign.
* `Token.IsAtom.unreserved`, `Formula.unreserved_text`: the atoms of a text are
  unreserved, and so is the text of a formula of such atoms.
-/
import Propositional.Proofs.Grammar.Derivation
import Propositional.Proofs.Scanning
import Propositional.Request

namespace Propositional

/-! ### Places -/

namespace Token

/-- The tokens of a text begin within it. -/
lemma offset_of_mem {p : Position} {n : ℕ} {cs : List Char} {t : Token}
    (h : t ∈ scanFrom p n cs) :
    p.offset ≤ t.start.offset ∧ t.start.offset < p.offset + cs.length := by
  induction cs generalizing p n with
  | nil => simp [scanFrom] at h
  | cons c cs ih =>
      have hlater : ∀ k, t ∈ scanFrom (p.next c) k cs →
          p.offset ≤ t.start.offset ∧ t.start.offset < p.offset + (c :: cs).length := by
        intro k hk
        have := ih hk
        rw [Position.offset_next] at this
        rw [List.length_cons]
        omega
      obtain ⟨k, hs | ⟨kind, -, hs⟩⟩ := scanFrom_cons_cases p n c cs
      · exact hlater k (hs ▸ h)
      · rw [hs] at h
        rcases List.mem_cons.mp h with rfl | h
        · exact ⟨le_rfl, by simp⟩
        · exact hlater k h

lemma pairwise_offset (p : Position) (n : ℕ) (cs : List Char) :
    (scanFrom p n cs).Pairwise fun t u => t.start.offset < u.start.offset := by
  induction cs generalizing p n with
  | nil => simp [scanFrom]
  | cons c cs ih =>
      obtain ⟨k, hs | ⟨kind, -, hs⟩⟩ := scanFrom_cons_cases p n c cs
      · rw [hs]
        exact ih (p.next c) k
      · rw [hs]
        refine List.pairwise_cons.mpr ⟨fun u hu => ?_, ih (p.next c) k⟩
        have := (offset_of_mem hu).1
        rwa [Position.offset_next] at this

end Token

lemma Source.pairwise_offset (text : String) :
    (Source.ofText text).toList.Pairwise fun t u => t.start.offset < u.start.offset := by
  rw [toList, tokens_ofText]
  refine List.pairwise_append.mpr
    ⟨Token.pairwise_offset _ _ _, List.pairwise_singleton _ _, fun t ht u hu => ?_⟩
  have := (Token.offset_of_mem ht).2
  rw [List.mem_singleton.mp hu, eof, stop_ofText]
  rwa [← Position.offset_advance] at this

/-! ### Atoms -/

lemma Token.munch_dollar (cs : List Char) : munch '$' cs = (some .unknown, 0) := by
  have hblank : Text.isBlank '$' = false := by decide +kernel
  have hstart : Text.startsName '$' = false := by decide +kernel
  have hdigit : Text.isDecimal '$' = false := by decide +kernel
  have hsign : operators.find? (fun op => op.1.isPrefixOf ('$' :: cs)) = none := by
    simp [operators, List.isPrefixOf]
  rw [munch, hblank, hstart, hdigit, hsign]
  rfl

/-- A text that begins with a character other than the sign of the names that
compounds without a name of their own get. -/
def Unreserved (n : String) : Prop := ∃ c cs, n.toList = c :: cs ∧ c ≠ '$'

lemma Unreserved.ne_anonymousName {n : String} (h : Unreserved n) (k : ℕ) :
    n ≠ anonymousName k := by
  rintro rfl
  obtain ⟨c, cs, htext, hc⟩ := h
  rw [anonymousName, String.toList_append] at htext
  exact hc (List.cons.inj htext).1.symm

/-- Generated names with different numbers are different. -/
lemma anonymousName_injective : Function.Injective anonymousName := by
  intro j k h
  rw [anonymousName, anonymousName, ← String.toList_inj, String.toList_append,
    String.toList_append, List.append_cancel_left_eq, Nat.toString_eq_ofList_toDigits,
    Nat.toString_eq_ofList_toDigits, String.toList_ofList, String.toList_ofList] at h
  rw [← Nat.ofDigitChars_ten_toDigits (n := j), h, Nat.ofDigitChars_ten_toDigits]

lemma Unreserved.append {n : String} (h : Unreserved n) (m : String) : Unreserved (n ++ m) := by
  obtain ⟨c, cs, htext, hc⟩ := h
  exact ⟨c, cs ++ m.toList, by rw [String.toList_append, htext, List.cons_append], hc⟩

lemma Token.IsAtom.unreserved {numeric : Bool} {text : String} {t : Token}
    (h : t.IsAtom numeric) (ht : t ∈ (Source.ofText text).tokens) : Unreserved t.lexeme := by
  rw [Source.tokens_ofText] at ht
  obtain ⟨-, c, ds, k, -, -, hm, hlexeme⟩ := Token.exists_munch_of_mem ht
  refine ⟨c, ds.take k, by rw [hlexeme, String.toList_ofList], ?_⟩
  rintro rfl
  rw [Token.munch_dollar] at hm
  have hk : t.kind = .unknown := (Option.some.inj (congrArg Prod.fst hm)).symm
  rcases h with h | h | h | ⟨h, -⟩ <;> rw [hk] at h <;> cases h

lemma Formula.unreserved_text (f : Formula) (h : ∀ n ∈ f.atoms, Unreserved n) :
    Unreserved f.text := by
  induction f with
  | atom n => exact h n (List.mem_singleton_self n)
  | neg f => exact Unreserved.append ⟨'¬', [], rfl, by decide⟩ f.text
  | binary c l r ihl =>
      exact ((ihl fun n hn => h n (List.mem_append_left _ hn)).append c.text).append r.text
  | group b f =>
      have hopener : Unreserved b.opener := by
        cases b <;> exact ⟨_, [], rfl, by decide⟩
      exact (hopener.append f.text).append b.closer

namespace Derivation

variable {numeric : Bool} {n : ℕ}

lemma exists_of_mem_atoms (d : Derivation numeric n) {a : String} (ha : a ∈ d.formula.atoms) :
    ∃ t ∈ d.tokens, t.IsAtom numeric ∧ t.lexeme = a := by
  induction d with
  | atom t ht => exact ⟨t, List.mem_singleton_self t, ht, (List.mem_singleton.mp ha).symm⟩
  | group b o c ho hc d ih =>
      obtain ⟨t, ht, hatom⟩ := ih ha
      exact ⟨t, List.mem_cons_of_mem _ (List.mem_append_left _ ht), hatom⟩
  | neg t ht d ih =>
      obtain ⟨u, hu, hatom⟩ := ih ha
      exact ⟨u, List.mem_cons_of_mem _ hu, hatom⟩
  | binary c t hc ht l r ihl ihr =>
      rcases List.mem_append.mp ha with ha | ha
      · obtain ⟨u, hu, hatom⟩ := ihl ha
        exact ⟨u, List.mem_append_left _ hu, hatom⟩
      · obtain ⟨u, hu, hatom⟩ := ihr ha
        exact ⟨u, List.mem_append_right _ (List.mem_cons_of_mem _ hu), hatom⟩
  | next d ih => exact ih ha

/-- The names and the atoms of derived propositions are among their tokens. -/
lemma Items.exists_of_mem (is : Items numeric) {p : Proposition} (hp : p ∈ is.propositions)
    {a : String} (ha : p.name = some a ∨ a ∈ p.formula.atoms) :
    ∃ t ∈ is.tokens, t.IsAtom numeric ∧ t.lexeme = a := by
  obtain ⟨d | ⟨t, e, ht, he, d⟩, rfl, htokens⟩ := is.exists_item hp
  · obtain ⟨t, ht, hatom⟩ := d.exists_of_mem_atoms (ha.resolve_left nofun)
    exact ⟨t, htokens t ht, hatom⟩
  · rcases ha with ha | ha
    · exact ⟨t, htokens t List.mem_cons_self, .inl ht, Option.some.inj ha⟩
    · obtain ⟨u, hu, hatom⟩ := d.exists_of_mem_atoms ha
      exact ⟨u, htokens u (List.mem_cons_of_mem _ (List.mem_cons_of_mem _ hu)), hatom⟩

end Derivation

end Propositional
