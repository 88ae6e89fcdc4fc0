import FuzzyInference.Proofs.CSource.Ordered

/-!
# Expressions that are read back

The expression that a text spells has the value of the one that was written: a negative number has
become a sign in front of a constant, which is an operand as well.
-/

namespace FuzzyInference.CSource

open Expression

section Forms

variable {α : Type} {sp : Spelling α}

/-- What an expression spells is what its first word does, and what the others do behind it. -/
theorem spelled_cons (w : Token α) (e : Expression α) :
    Expression.spelled sp (w :: e) = w.spelled sp ++ e.spelled sp := rfl

/-- Expressions beside each other are spelled beside each other. -/
theorem spelled_append (l r : Expression α) :
    Expression.spelled sp (l ++ r) = l.spelled sp ++ r.spelled sp :=
  List.flatMap_append

/-- Parentheses are spelled as such. -/
theorem spelled_grouped (e : Expression α) :
    Expression.spelled sp (grouped e) = grouped (e.spelled sp) := by
  rw [grouped, List.cons_append, spelled_cons, spelled_append]
  rfl

/-- Commas between expressions are spelled as such. -/
theorem spelled_joined (es : List (Expression α)) :
    Expression.spelled sp (joined .comma es) = joined .comma (es.map (Expression.spelled sp)) := by
  induction es with
  | nil => rfl
  | cons e es ih =>
    cases es with
    | nil => rfl
    | cons e' es =>
      rw [joined, spelled_append, spelled_cons, ih]
      · rfl
      · exact nofun

/-- A call is spelled as one. -/
theorem spelled_call (function : String) (es : List (Expression α)) :
    Expression.spelled sp (call function es) = call function (es.map (Expression.spelled sp)) := by
  rw [call, spelled_cons, spelled_grouped, spelled_joined]
  rfl

/-- An expression of which no number is written with a sign is spelled as it is. -/
theorem spelled_eq_self [Neg α] {e : Expression α} (hnumber : ∀ x, .number x ∈ e → sp.ReadsBack x)
    (hplain : ∀ x, .number x ∈ e → sp.signed x = false) : e.spelled sp = e := by
  induction e with
  | nil => rfl
  | cons w e ih =>
    have hw : w.spelled sp = [w] := by
      cases w with
      | number x =>
        have hx := hplain x List.mem_cons_self
        have hvalue := (hnumber x List.mem_cons_self).value
        rw [hx, if_neg Bool.false_ne_true] at hvalue
        rw [Token.spelled, hx, hvalue]
        rfl
      | _ => rfl
    rw [spelled_cons, hw, ih (fun x hx ↦ hnumber x (List.mem_cons_of_mem _ hx))
      fun x hx ↦ hplain x (List.mem_cons_of_mem _ hx)]
    rfl

end Forms

variable {α : Type} [Scalar α] {sp : Spelling α}

/-- A term has the value of another wherever that is taken. -/
def Term.Same (t u : Term α) : Prop :=
  ∀ functions env, t.value functions env = u.value functions env

mutual

/-- What an expression of the grammar spells is one of the same level, except that a negative number
is an operand behind a sign, and of the same value. -/
theorem Reads.spelled : {n : Nat} → {e : Expression α} → {t : Term α} → Reads n e t →
    (∀ x, .number x ∈ e → sp.ReadsBack x) →
      ∃ u, Reads (max n 1) (e.spelled sp) u ∧ u.Same t
  | _, _, _, .number x, he => by
    have hvalue := (he x List.mem_cons_self).value
    rw [spelled_cons, Token.spelled]
    cases hx : sp.signed x with
    | false =>
      rw [hx, if_neg Bool.false_ne_true] at hvalue
      exact ⟨_, .looser (.number _), fun _ _ ↦ by rw [hvalue]⟩
    | true =>
      rw [hx, if_pos rfl] at hvalue
      refine ⟨_, .negation (.looser (.number _)), fun _ _ ↦ ?_⟩
      show some (Value.floating (-sp.size x)) = some (.floating x)
      rw [hvalue]
  | _, _, _, .whole n, _ => ⟨_, .looser (.whole n), fun _ _ ↦ rfl⟩
  | _, _, _, .variable s, _ => ⟨_, .looser (.variable s), fun _ _ ↦ rfl⟩
  | _, _, _, @Reads.group _ e _ h, he => by
    obtain ⟨u, hu, hsame⟩ := h.spelled fun x hx ↦ he x (by simp [grouped, hx])
    exact ⟨u, spelled_grouped e ▸ .looser (.group hu), hsame⟩
  | _, _, _, @Reads.call _ function es _ hs, he => by
    obtain ⟨us, hus, hsame⟩ := hs.spelled fun x hx ↦ he x (by simp [call, grouped, hx])
    refine ⟨.call function us, ?_, fun functions env ↦ ?_⟩
    · rw [spelled_call]
      exact .looser (.call hus)
    · rw [Term.value, Term.value, hsame]
  | _, _, _, .negation h, he => by
    obtain ⟨u, hu, hsame⟩ := h.spelled fun x hx ↦ he x (List.mem_cons_of_mem _ hx)
    refine ⟨_, .negation hu, fun functions env ↦ ?_⟩
    rw [Term.value, Term.value, hsame]
  | _, _, _, .conversion h, he => by
    obtain ⟨u, hu, hsame⟩ := h.spelled fun x hx ↦ he x (List.mem_cons_of_mem _ hx)
    refine ⟨_, .conversion hu, fun functions env ↦ ?_⟩
    rw [Term.value, Term.value, hsame]
  | _, _, _, @Reads.binary _ w op n l r _ _ hw hl h k, he => by
    obtain ⟨t, ht, htsame⟩ := h.spelled fun x hx ↦ he x (by simp [hx])
    obtain ⟨u, hu, husame⟩ := k.spelled fun x hx ↦ he x (by simp [hx])
    -- Operators bind looser than a sign, so a signed number is still an operand.
    have hn : 1 ≤ n := by cases op <;> simp only [BinaryOperator.level] at hl <;> omega
    have hspelled : w.spelled sp = [w] := by cases w <;> first | rfl | cases hw
    rw [max_eq_left (by omega)] at ht ⊢
    rw [max_eq_left hn] at hu
    refine ⟨.binary op t u, ?_, fun functions env ↦ ?_⟩
    · rw [spelled_append, spelled_cons, hspelled]
      exact .binary hw hl ht hu
    · rw [Term.value, Term.value, htsame, husame]
  | _, _, _, @Reads.choice _ c y z _ _ _ hc hy hz, he => by
    obtain ⟨t, ht, htsame⟩ := hc.spelled fun x hx ↦ he x (by simp [choice, hx])
    obtain ⟨u, hu, husame⟩ := hy.spelled fun x hx ↦ he x (by simp [choice, hx])
    obtain ⟨v, hv, hvsame⟩ := hz.spelled fun x hx ↦ he x (by simp [choice, hx])
    refine ⟨.choice t u v, ?_, fun functions env ↦ ?_⟩
    · rw [choice, spelled_append, spelled_append, spelled_cons, spelled_cons]
      exact .choice ht hu hv
    · rw [Term.value, Term.value, htsame, husame, hvsame]
  | _, _, _, .looser h, he => by
    obtain ⟨u, hu, hsame⟩ := h.spelled he
    exact ⟨u, hu.of_le (by omega), hsame⟩

/-- What arguments spell is read one by one, and is of the same values. -/
theorem ReadAll.spelled : {es : List (Expression α)} → {ts : List (Term α)} → ReadAll es ts →
    (∀ x, .number x ∈ joined .comma es → sp.ReadsBack x) →
      ∃ us, ReadAll (es.map (Expression.spelled sp)) us ∧
        ∀ functions env, argumentValues functions env us = argumentValues functions env ts
  | _, _, .one h, he => by
    obtain ⟨u, hu, hsame⟩ := h.spelled he
    refine ⟨[u], .one hu, fun functions env ↦ ?_⟩
    simp only [argumentValues, hsame functions env]
  | _, _, @ReadAll.more _ e _ (e' :: es) _ h hs, he => by
    have hjoined : joined .comma (e :: e' :: es) = e ++ .comma :: joined .comma (e' :: es) := rfl
    rw [hjoined] at he
    obtain ⟨u, hu, hsame⟩ := h.spelled fun x hx ↦ he x (by simp [hx])
    obtain ⟨us, hus, hsames⟩ := hs.spelled fun x hx ↦ he x (by simp [hx])
    refine ⟨u :: us, .more hu hus, fun functions env ↦ ?_⟩
    rw [argumentValues, argumentValues, hsame, hsames]

end

/-- What an expression spells has its value. -/
theorem valueOf_spelled {n : Nat} (hn : n ≤ 8) {e : Expression α} {t : Term α} (h : Reads n e t)
    (he : ∀ x, .number x ∈ e → sp.ReadsBack x) (functions : Functions α) (env : Environment α) :
    valueOf functions env (e.spelled sp) = valueOf functions env e := by
  obtain ⟨u, hu, hsame⟩ := h.spelled he
  rw [valueOf, valueOf, reading_eq (by omega) hu, reading_eq hn h]
  exact hsame functions env

/-- The text of an expression is read back, and what it spells has the value of the expression. -/
structure Expression.Sound (sp : Spelling α) (e : Expression α) : Prop where
  /-- Its numbers and names are read back. -/
  legible : e.Legible sp
  /-- Its words are ordered. -/
  ordered : e.Ordered sp
  /-- What it spells has its value. -/
  value_eq : ∀ functions env, valueOf functions env (e.spelled sp) = valueOf functions env e

end FuzzyInference.CSource
