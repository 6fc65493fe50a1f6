/-
Requests that only differ in how they are written.

* `Scope.enterAll_rel`, `Request.ofSource_rel`: requests that are read in step have the
  same names, or the same fault at related tokens.
* `Request.table_congr`: the table of a request depends on its formulas and names only.
* `Token.Alike`: tokens of the same kind, with the same lexeme if they are names or
  numbers.
* `Table.ofText_congr`: texts whose tokens are alike have the same table, or are
  rejected for the same cause at the same place.
-/
import Propositional.Proofs.Evaluation
import Propositional.Proofs.Grammar.Lockstep

namespace Propositional

variable {R : Token → Token → Prop}

/-! ### Names -/

namespace Scope

/-- A name is free or taken in whichever token it stands. -/
lemma check_rel (s : Scope) {t u : Token} (h : Token.NameRel R t u) :
    Except.Rel (Rejection.Rel R) Eq (s.check t) (s.check u) := by
  rw [check, check, ← h.2]
  split
  · exact .error ⟨rfl, h.1⟩
  · split
    · exact .error ⟨rfl, h.1⟩
    · exact .ok rfl

/-- Related propositions register the same names, or fail alike. -/
lemma enter_rel (s : Scope) {p q : Proposition} (h : Proposition.Rel R p q) :
    Except.Rel (Rejection.Rel R) Eq (s.enter p) (s.enter q) := by
  have hlabel := h.label
  rw [enter, enter, ← h.formula]
  generalize p.label = x, q.label = y at hlabel
  cases hlabel with
  | none => exact .ok rfl
  | @some t u ht =>
      have hcheck := check_rel (p.formula.atoms.foldl (fun s name => (s.addSimple name).2) s) ht
      dsimp only
      rw [declare, declare]
      generalize check _ t = x, check _ u = y at hcheck
      cases hcheck with
      | error hr => exact .error hr
      | ok => exact .ok (congrArg _ ht.2)

lemma enterAll_rel (s : Scope) {ps qs : List Proposition}
    (h : List.Forall₂ (Proposition.Rel R) ps qs) :
    Except.Rel (Rejection.Rel R) Eq (s.enterAll ps) (s.enterAll qs) := by
  induction h generalizing s with
  | nil => exact .ok rfl
  | @cons p q ps qs hpq htail ih =>
      have henter := s.enter_rel hpq
      rw [enterAll, enterAll]
      generalize s.enter p = x, s.enter q = y at henter
      cases henter with
      | error hr => exact .error hr
      | ok hs =>
          subst hs
          exact ih _

end Scope

/-! ### Requests and their tables -/

/-- Requests of related propositions with the same names. -/
structure Request.Rel (R : Token → Token → Prop) (r r' : Request) : Prop where
  numeric : r.numeric = r'.numeric
  propositions : List.Forall₂ (Proposition.Rel R) r.propositions r'.propositions
  scope : r.scope = r'.scope

/-- Requests that are read with the same result are the same, or have the same fault at
related tokens. -/
lemma Request.ofSource_rel {numeric : Bool} {a b : Source}
    (h : Reading.Rel R (Reading.ofSource numeric a) (Reading.ofSource numeric b)) :
    Except.Rel (Rejection.Rel R) (Request.Rel R) (Request.ofSource numeric a)
      (Request.ofSource numeric b) := by
  rw [Request.ofSource_eq, Request.ofSource_eq, Request.ofReading, Request.ofReading]
  generalize Reading.ofSource numeric a = r, Reading.ofSource numeric b = r' at h
  obtain ⟨ps, pending, fault⟩ := r
  obtain ⟨qs, pending', fault'⟩ := r'
  obtain ⟨hps, hpending, hfault⟩ := h
  dsimp only at hps hpending hfault ⊢
  have henter := Scope.enterAll_rel {} hps
  generalize Scope.enterAll {} ps = x, Scope.enterAll {} qs = y at henter
  cases henter with
  | error hr => exact .error hr
  | @ok s _ hs =>
      subst hs
      have hcheck : Except.Rel (Rejection.Rel R) Eq (pending.elim (.ok ()) s.check)
          (pending'.elim (.ok ()) s.check) := by
        cases hpending with
        | none => exact .ok rfl
        | some ht => exact s.check_rel ht
      dsimp only
      generalize pending.elim (.ok ()) s.check = x, pending'.elim (.ok ()) s.check = y at hcheck
      cases hcheck with
      | error hr => exact .error hr
      | ok =>
          cases hfault with
          | none => exact .ok ⟨rfl, hps, rfl⟩
          | some hr => exact .error hr

/-- The compounds of propositions depend on their formulas and names only. -/
lemma Compound.gather_congr {ps qs : List Proposition}
    (h : List.Forall₂ (Proposition.Rel R) ps qs) (k : ℕ) (s : Scope) :
    gather ps k s = gather qs k s := by
  induction h generalizing k s with
  | nil => rfl
  | @cons p q ps qs hpq htail ih =>
      rw [gather, gather, ← hpq.formula, ← hpq.name]
      simp only [ih]

/-- The table of a request depends on its formulas and names only. -/
lemma Request.table_congr {r r' : Request} (h : Request.Rel R r r') (ordered : Bool) :
    r.table ordered = r'.table ordered := by
  obtain ⟨numeric, ps, scope⟩ := r
  obtain ⟨numeric', qs, scope'⟩ := r'
  obtain ⟨rfl : numeric = numeric', hps, rfl : scope = scope'⟩ := h
  have hgather := Compound.gather_congr hps 0 (scope.enumerate numeric)
  rw [table, table, evaluate, evaluate, gathered, gathered]
  dsimp only [enumerated, rows]
  rw [hgather]

/-- Texts that are read with the same result have the same table, or are rejected for
the same cause at related tokens. -/
lemma Table.ofText_rel {numeric : Bool} {a b : String}
    (h : Reading.Rel R (Reading.ofSource numeric (.ofText a))
      (Reading.ofSource numeric (.ofText b)))
    (ordered : Bool) :
    (∃ t, Table.ofText numeric ordered a = .ok t ∧ Table.ofText numeric ordered b = .ok t) ∨
    ∃ r r', Table.ofText numeric ordered a = .error (.rejected r) ∧
      Table.ofText numeric ordered b = .error (.rejected r') ∧ Rejection.Rel R r r' := by
  have hrequest := Request.ofSource_rel h
  rw [← Request.ofText, ← Request.ofText] at hrequest
  generalize ha : Request.ofText numeric a = x, hb : Request.ofText numeric b = y at hrequest
  cases hrequest with
  | @error r r' hr =>
      refine .inr ⟨r, r', ?_, ?_, hr⟩
      · rw [Table.ofText, ha]
      · rw [Table.ofText, hb]
  | @ok r r' hr =>
      obtain ⟨-, -, e, he, -⟩ := Request.table_of_ok ha ordered
      refine .inl ⟨_, he, ?_⟩
      rw [← he, Table.ofText, Table.ofText, ha, hb]
      dsimp only
      rw [Request.table_congr hr]

/-! ### Texts with the same meaning -/

/-- Tokens of the same kind, with the same lexeme if they are names or numbers. -/
structure Token.Alike (t u : Token) : Prop where
  kind : t.kind = u.kind
  lexeme : t.kind = .ident ∨ t.kind = .number → t.lexeme = u.lexeme

instance (t u : Token) : Decidable (Token.Alike t u) :=
  decidable_of_iff
    (t.kind = u.kind ∧ (t.kind = .ident ∨ t.kind = .number → t.lexeme = u.lexeme))
    ⟨fun h => ⟨h.1, h.2⟩, fun h => ⟨h.1, h.2⟩⟩

/-- A token of a text is the end of it or a piece. -/
lemma Source.isPiece_of_mem {text : String} {t : Token} (ht : t ∈ (Source.ofText text).toList)
    (hkind : t.kind ≠ .eof) : Token.IsPiece t.kind t.lexeme := by
  rcases List.mem_append.mp ht with ht | ht
  · exact Token.isPiece_of_mem ht
  · rw [List.mem_singleton.mp ht] at hkind
    exact absurd rfl hkind

/-- The signs for the constants have one spelling each, so that they are the same where
their kinds are. -/
lemma Token.Alike.lexeme_of_isWord {a b : String} {t u : Token} (h : Token.Alike t u)
    (ht : t ∈ (Source.ofText a).toList) (hu : u ∈ (Source.ofText b).toList)
    (hword : t.IsWord) : t.lexeme = u.lexeme := by
  have hspelling : ∀ op ∈ Token.operators, ∀ op' ∈ Token.operators,
      op.2 = .top ∨ op.2 = .bottom → op.2 = op'.2 → op.1 = op'.1 := by decide
  have hsign : t.kind = .top ∨ t.kind = .bottom → t.lexeme = u.lexeme := by
    intro hk
    have hne : t.kind ≠ .eof := by rcases hk with hk | hk <;> simp [hk]
    have hmem := (Source.isPiece_of_mem ht hne).mem_operators hk
    have hmem' := (Source.isPiece_of_mem hu (h.kind ▸ hne)).mem_operators (h.kind ▸ hk)
    exact String.toList_inj.mp (hspelling _ hmem _ hmem' hk h.kind)
  rcases hword with hk | hk | hk | hk
  · exact h.lexeme (.inl hk)
  · exact h.lexeme (.inr hk)
  · exact hsign (.inl hk)
  · exact hsign (.inr hk)

/-- **Tokens determine the answer.** Two texts with the same number of tokens, of the
same kinds in order and with the same lexemes where they are names or numbers, have the
same table, or they are rejected for the same cause at tokens of the same index. -/
theorem Table.ofText_congr {a b : String}
    (h : List.Forall₂ Token.Alike (Source.ofText a).toList (Source.ofText b).toList)
    (numeric ordered : Bool) :
    (∃ t, Table.ofText numeric ordered a = .ok t ∧ Table.ofText numeric ordered b = .ok t) ∨
    ∃ r r', Table.ofText numeric ordered a = .error (.rejected r) ∧
      Table.ofText numeric ordered b = .error (.rejected r') ∧ r.cause = r'.cause ∧
      ∃ i : ℕ, (Source.ofText a).toList[i]? = some r.token ∧
        (Source.ofText b).toList[i]? = some r'.token := by
  -- tokens of the same index that are alike; the two ends have no lexeme to compare
  let R (t u : Token) : Prop := Token.Alike t u ∧ (t.IsWord → t.lexeme = u.lexeme) ∧
    ∃ i : ℕ, (Source.ofText a).toList[i]? = some t ∧ (Source.ofText b).toList[i]? = some u
  have hR : Token.Likeness R := ⟨fun h => h.1.kind, fun h => h.2.1⟩
  have hall : List.Forall₂ R (Source.ofText a).toList (Source.ofText b).toList := by
    obtain ⟨hlength, hget⟩ := List.forall₂_iff_get.mp h
    refine List.forall₂_iff_get.mpr ⟨hlength, fun i hi hj => ⟨hget i hi hj, ?_, i, ?_, ?_⟩⟩
    · exact (hget i hi hj).lexeme_of_isWord (List.get_mem _ _) (List.get_mem _ _)
    · exact List.getElem?_eq_getElem hi
    · exact List.getElem?_eq_getElem hj
  rw [Source.toList, Source.toList, ← List.forall₂_reverse_iff, List.reverse_append,
    List.reverse_append, List.reverse_singleton, List.reverse_singleton, List.singleton_append,
    List.singleton_append] at hall
  obtain ⟨heof, htokens⟩ := List.forall₂_cons.mp hall
  rw [List.forall₂_reverse_iff] at htokens
  rcases Table.ofText_rel (Reading.ofSource_rel hR numeric htokens heof) ordered with
    ⟨t, ha, hb⟩ | ⟨r, r', ha, hb, hr⟩
  · exact .inl ⟨t, ha, hb⟩
  · exact .inr ⟨r, r', ha, hb, hr.cause, hr.token.2.2⟩

/-- Spellings, letter case and white space make no difference to a clash of names. -/
theorem Table.ofText_congr_spellings :
    List.Forall₂ Token.Alike (Source.ofText "p = a AND !b,\n b = 1 v p").toList
        (Source.ofText "p=a•~b, b  =1 v p").toList ∧
      ((∃ t, Table.ofText true false "p = a AND !b,\n b = 1 v p" = .ok t ∧
          Table.ofText true false "p=a•~b, b  =1 v p" = .ok t) ∨
        ∃ r r', Table.ofText true false "p = a AND !b,\n b = 1 v p" = .error (.rejected r) ∧
          Table.ofText true false "p=a•~b, b  =1 v p" = .error (.rejected r') ∧
          r.cause = r'.cause ∧
          ∃ i : ℕ, (Source.ofText "p = a AND !b,\n b = 1 v p").toList[i]? = some r.token ∧
            (Source.ofText "p=a•~b, b  =1 v p").toList[i]? = some r'.token) :=
  have h : List.Forall₂ Token.Alike (Source.ofText "p = a AND !b,\n b = 1 v p").toList
      (Source.ofText "p=a•~b, b  =1 v p").toList := by decide +kernel
  ⟨h, Table.ofText_congr h true false⟩

end Propositional
