import FuzzyInference.Proofs.CSource.Grammar

/-!
# Expressions are read in one way

The grammar groups to the left, so it cannot be followed word by word. A second set of rules can:
each of its steps is decided by the next word. It reads every expression of the grammar, and it
reads a list of words in one way only; so does the grammar.
-/

namespace FuzzyInference.CSource

variable {α : Type}

mutual

/-- An expression of a level is taken off the front of a list of words, which leaves the rest. -/
inductive Takes : Nat → List (Token α) → Term α → List (Token α) → Prop
  | number {x : α} {rest : List (Token α)} : Takes 0 (.number x :: rest) (.number x) rest
  | whole {n : Nat} {rest : List (Token α)} : Takes 0 (.whole n :: rest) (.whole n) rest
  | variable {name : String} {rest : List (Token α)} :
    rest.head? ≠ some .opening → Takes 0 (.name name :: rest) (.variable name) rest
  | group {ws rest : List (Token α)} {t : Term α} :
    Takes 8 ws t (.closing :: rest) → Takes 0 (.opening :: ws) t rest
  | call {function : String} {ws rest : List (Token α)} {ts : List (Term α)} :
    TakesAll ws ts (.closing :: rest) →
      Takes 0 (.name function :: .opening :: ws) (.call function ts) rest
  | negation {ws rest : List (Token α)} {t : Term α} :
    Takes 1 ws t rest → Takes 1 (.negative :: ws) (.negation t) rest
  | conversion {ws rest : List (Token α)} {t : Term α} :
    Takes 1 ws t rest → Takes 1 (.toInt :: ws) (.conversion t) rest
  | primary {ws rest : List (Token α)} {t : Term α} : Takes 0 ws t rest → Takes 1 ws t rest
  | chain {n : Nat} {ws mid rest : List (Token α)} {t u : Term α} :
    n < 6 → Takes (n + 1) ws t mid → Extends (n + 1) t mid u rest → Takes (n + 2) ws u rest
  | choice {ws ws₁ ws₂ rest : List (Token α)} {t u v : Term α} :
    Takes 7 ws t (.question :: ws₁) → Takes 8 ws₁ u (.colon :: ws₂) → Takes 8 ws₂ v rest →
      Takes 8 ws (.choice t u v) rest
  | plain {ws rest : List (Token α)} {t : Term α} :
    Takes 7 ws t rest → rest.head? ≠ some .question → Takes 8 ws t rest

/-- A term is extended by the operators that follow it and form expressions of the level above, and
by their operands. -/
inductive Extends : Nat → Term α → List (Token α) → Term α → List (Token α) → Prop
  | stop {n : Nat} {t : Term α} {rest : List (Token α)} :
    (∀ op ∈ rest.head?.bind Token.operator?, op.level ≠ n + 1) → Extends n t rest t rest
  | step {n : Nat} {w : Token α} {op : BinaryOperator} {ws mid rest : List (Token α)}
    {t u v : Term α} :
    w.operator? = some op → op.level = n + 1 → Takes n ws u mid →
      Extends n (.binary op t u) mid v rest → Extends n t (w :: ws) v rest

/-- Arguments with commas between them are taken off the front of a list of words. -/
inductive TakesAll : List (Token α) → List (Term α) → List (Token α) → Prop
  | one {ws rest : List (Token α)} {t : Term α} :
    Takes 8 ws t rest → rest.head? ≠ some .comma → TakesAll ws [t] rest
  | more {ws mid rest : List (Token α)} {t : Term α} {ts : List (Term α)} :
    Takes 8 ws t (.comma :: mid) → TakesAll mid ts rest → TakesAll ws (t :: ts) rest

end

/-! ### One way only -/

mutual

/-- What is taken off the front, and what is left, are determined. -/
theorem Takes.unique {rest' : List (Token α)} {t' : Term α} :
    {n : Nat} → {ws rest : List (Token α)} → {t : Term α} →
      Takes n ws t rest → Takes n ws t' rest' → t = t' ∧ rest = rest'
  | _, _, _, _, .number, .number => ⟨rfl, rfl⟩
  | _, _, _, _, .whole, .whole => ⟨rfl, rfl⟩
  | _, _, _, _, .variable _, .variable _ => ⟨rfl, rfl⟩
  | _, _, _, _, .variable h, .call _ => absurd rfl h
  | _, _, _, _, .call _, .variable k => absurd rfl k
  | _, _, _, _, .group h, .group k => by
    obtain ⟨rfl, hr⟩ := h.unique k
    exact ⟨rfl, (List.cons.inj hr).2⟩
  | _, _, _, _, .call h, .call k => by
    obtain ⟨rfl, hr⟩ := h.unique k
    exact ⟨rfl, (List.cons.inj hr).2⟩
  | _, _, _, _, .negation h, .negation k => by
    obtain ⟨rfl, hr⟩ := h.unique k
    exact ⟨rfl, hr⟩
  | _, _, _, _, .conversion h, .conversion k => by
    obtain ⟨rfl, hr⟩ := h.unique k
    exact ⟨rfl, hr⟩
  | _, _, _, _, .primary h, .primary k => h.unique k
  | _, _, _, _, .chain _ h hs, .chain _ k ks => by
    obtain ⟨rfl, rfl⟩ := h.unique k
    exact hs.unique ks
  | _, _, _, _, .choice h₁ h₂ h₃, .choice k₁ k₂ k₃ => by
    obtain ⟨rfl, hr₁⟩ := h₁.unique k₁
    obtain ⟨-, rfl⟩ := List.cons.inj hr₁
    obtain ⟨rfl, hr₂⟩ := h₂.unique k₂
    obtain ⟨-, rfl⟩ := List.cons.inj hr₂
    obtain ⟨rfl, rfl⟩ := h₃.unique k₃
    exact ⟨rfl, rfl⟩
  | _, _, _, _, .choice h _ _, .plain k hq => by
    obtain ⟨-, rfl⟩ := h.unique k
    exact absurd rfl hq
  | _, _, _, _, .plain h hq, .choice k _ _ => by
    obtain ⟨-, rfl⟩ := h.unique k
    exact absurd rfl hq
  | _, _, _, _, .plain h _, .plain k _ => h.unique k
  | _, _, _, _, .chain hn _ _, .choice .. => absurd hn (by decide)
  | _, _, _, _, .chain hn _ _, .plain .. => absurd hn (by decide)
  | _, _, _, _, .choice .., .chain hn _ _ => absurd hn (by decide)
  | _, _, _, _, .plain .., .chain hn _ _ => absurd hn (by decide)

/-- What a term is extended to, and what is left, are determined. -/
theorem Extends.unique {n : Nat} {ws rest rest' : List (Token α)} {t u u' : Term α} :
    Extends n t ws u rest → Extends n t ws u' rest' → u = u' ∧ rest = rest'
  | .stop _, .stop _ => ⟨rfl, rfl⟩
  | .stop h, .step hw hl _ _ => absurd hl (h _ (by simpa using hw))
  | .step hw hl _ _, .stop h => absurd hl (h _ (by simpa using hw))
  | .step hw _ h hs, .step kw _ k ks => by
    obtain ⟨rfl, rfl⟩ := h.unique k
    cases Option.some.inj (hw.symm.trans kw)
    exact hs.unique ks

/-- The arguments, and what is left, are determined. -/
theorem TakesAll.unique {ws rest rest' : List (Token α)} {ts ts' : List (Term α)} :
    TakesAll ws ts rest → TakesAll ws ts' rest' → ts = ts' ∧ rest = rest'
  | .one h _, .one k _ => by
    obtain ⟨rfl, rfl⟩ := h.unique k
    exact ⟨rfl, rfl⟩
  | .one h hc, .more k _ => by
    obtain ⟨-, rfl⟩ := h.unique k
    exact absurd rfl hc
  | .more h _, .one k kc => by
    obtain ⟨-, rfl⟩ := h.unique k
    exact absurd rfl kc
  | .more h hs, .more k ks => by
    obtain ⟨rfl, hr⟩ := h.unique k
    obtain ⟨-, rfl⟩ := List.cons.inj hr
    obtain ⟨rfl, rfl⟩ := hs.unique ks
    exact ⟨rfl, rfl⟩

end

/-! ### Every expression of the grammar -/

/-- The words behind an expression of level `n` do not belong to it: they neither make it a call,
nor does an operator that groups tighter take its last operand, nor is it the condition of a
choice. -/
structure Follows (n : Nat) (rest : List (Token α)) : Prop where
  /-- No arguments follow. -/
  not_opening : rest.head? ≠ some .opening
  /-- No operator of a lower level follows. -/
  le_level : ∀ op ∈ rest.head?.bind Token.operator?, n ≤ op.level
  /-- No alternatives follow a full expression. -/
  not_question : n = 8 → rest.head? ≠ some .question

/-- A word that is no operator and neither opens arguments nor alternatives follows everything. -/
theorem Follows.of_word {n : Nat} {w : Token α} {rest : List (Token α)} (hw : w.operator? = none)
    (ho : w ≠ .opening) (hq : w ≠ .question) : Follows n (w :: rest) :=
  ⟨by simpa using ho, by simp [hw], fun _ ↦ by simpa using hq⟩

/-- What follows an expression of some level follows one of a lower level. -/
theorem Follows.of_succ {n : Nat} {rest : List (Token α)} (h : Follows (n + 1) rest) (hn : n < 8) :
    Follows n rest :=
  ⟨h.not_opening, fun op hop ↦ Nat.le_of_succ_le (h.le_level op hop), fun he ↦ by omega⟩

/-- What becomes of a term of level `n` in front of a list of words: if operators form expressions
of the level, those that follow extend it. -/
def Completes (n : Nat) (t : Term α) (rest : List (Token α)) (u : Term α)
    (rest' : List (Token α)) : Prop :=
  if 2 ≤ n ∧ n ≤ 7 then Extends (n - 1) t rest u rest' else u = t ∧ rest' = rest

/-- A term is complete if what follows it belongs to a higher level. -/
theorem Follows.completes {n : Nat} {t : Term α} {rest : List (Token α)}
    (h : Follows (n + 1) rest) : Completes n t rest t rest := by
  unfold Completes
  split
  · next hn =>
    refine .stop fun op hop ↦ ?_
    have := h.le_level op hop
    omega
  · exact ⟨rfl, rfl⟩

/-- What is read at a level is read at the next. -/
theorem takes_succ {n : Nat} {ws rest rest' : List (Token α)} {t u : Term α} (hn : n < 8)
    (h : Takes n ws t rest) (hf : Follows (n + 1) rest)
    (hc : Completes (n + 1) t rest u rest') : Takes (n + 1) ws u rest' := by
  unfold Completes at hc
  cases n with
  | zero =>
    obtain ⟨rfl, rfl⟩ := hc
    exact .primary h
  | succ k =>
    by_cases hk : k = 6
    · subst hk
      obtain ⟨rfl, rfl⟩ := hc
      exact .plain h (hf.not_question rfl)
    · rw [if_pos ⟨by omega, by omega⟩] at hc
      exact .chain (by omega) h hc

mutual

/-- An expression of the grammar is taken off the front of every list of words that starts with it,
together with the operators of its level that follow. -/
theorem Reads.takes : {n : Nat} → {e : Expression α} → {t : Term α} → Reads n e t → n ≤ 8 →
    ∀ {rest rest' : List (Token α)} {u : Term α}, Follows n rest → Completes n t rest u rest' →
      Takes n (e ++ rest) u rest'
  | _, _, _, .number _, _, _, _, _, _, ⟨rfl, rfl⟩ => .number
  | _, _, _, .whole _, _, _, _, _, _, ⟨rfl, rfl⟩ => .whole
  | _, _, _, .variable _, _, _, _, _, hf, ⟨rfl, rfl⟩ => .variable hf.not_opening
  | _, _, _, .group h, _, rest, _, _, _, ⟨rfl, rfl⟩ => by
    have hw : Follows 8 (.closing :: rest) := .of_word rfl nofun nofun
    have ht := h.takes (Nat.le_refl 8) hw ⟨rfl, rfl⟩
    simpa [Expression.grouped] using Takes.group ht
  | _, _, _, .call hs, _, rest, _, _, _, ⟨rfl, rfl⟩ => by
    simpa [Expression.call, Expression.grouped] using Takes.call (hs.takesAll rest)
  | _, _, _, .negation h, _, _, _, _, hf, ⟨rfl, rfl⟩ =>
    .negation (h.takes (by decide) hf ⟨rfl, rfl⟩)
  | _, _, _, .conversion h, _, _, _, _, hf, ⟨rfl, rfl⟩ =>
    .conversion (h.takes (by decide) hf ⟨rfl, rfl⟩)
  | _, _, _, @Reads.binary _ w op n l r t v hw hl h k, hn, rest, rest', u, hf, hc => by
    have hb : 1 ≤ n ∧ n ≤ 6 := by
      cases op <;> simp only [BinaryOperator.level] at hl <;> omega
    -- The operator extends its left operand by its right one, and then by what follows.
    have hc : Extends n (.binary op t v) rest u rest' := by
      rwa [Completes, if_pos ⟨by omega, by omega⟩] at hc
    have hr := k.takes (by omega) (hf.of_succ (by omega)) hf.completes
    have hfl : Follows (n + 1) (w :: (r ++ rest)) := by
      refine ⟨?_, by simp [hw, hl], fun he ↦ by omega⟩
      rintro ⟨⟩
      cases hw
    have hcl : Completes (n + 1) t (w :: (r ++ rest)) u rest' := by
      rw [Completes, if_pos ⟨by omega, by omega⟩]
      exact .step hw hl hr hc
    simpa using h.takes (by omega) hfl hcl
  | _, _, _, @Reads.choice _ c y z t _ _ hc hy hz, _, rest, _, _, hf, ⟨rfl, rfl⟩ => by
    have hfq : Follows 8 (.colon :: (z ++ rest)) := .of_word rfl nofun nofun
    have hfc : Follows 7 (.question :: (y ++ .colon :: (z ++ rest))) :=
      ⟨nofun, by simp [Token.operator?], nofun⟩
    have hcc : Completes 7 t (.question :: (y ++ .colon :: (z ++ rest))) t
        (.question :: (y ++ .colon :: (z ++ rest))) := Extends.stop (by simp [Token.operator?])
    have ht := Takes.choice (hc.takes (by decide) hfc hcc)
      (hy.takes (Nat.le_refl 8) hfq ⟨rfl, rfl⟩) (hz.takes (Nat.le_refl 8) hf ⟨rfl, rfl⟩)
    simpa [Expression.choice] using ht
  | _, _, _, .looser h, hn, _, _, _, hf, hc =>
    takes_succ hn (h.takes (Nat.le_of_succ_le hn) (hf.of_succ hn) hf.completes) hf hc

/-- Arguments are taken off the front of every list of words that starts with them. -/
theorem ReadAll.takesAll : {es : List (Expression α)} → {ts : List (Term α)} → ReadAll es ts →
    ∀ rest : List (Token α),
      TakesAll (Expression.joined .comma es ++ .closing :: rest) ts (.closing :: rest)
  | _, _, .one h, rest => by
    have hw : Follows 8 (.closing :: rest) := .of_word rfl nofun nofun
    exact .one (h.takes (Nat.le_refl 8) hw ⟨rfl, rfl⟩) nofun
  | _, _, @ReadAll.more _ e _ es ts h hs, rest => by
    have hw : Follows 8 (.comma :: (Expression.joined .comma es ++ .closing :: rest)) :=
      .of_word rfl nofun nofun
    have ht := TakesAll.more (h.takes (Nat.le_refl 8) hw ⟨rfl, rfl⟩) (hs.takesAll rest)
    cases hs <;> simpa [Expression.joined] using ht

end

/-- An expression stands for one term only. -/
theorem Reads.unique {n : Nat} (hn : n ≤ 8) {e : Expression α} {t u : Term α} (h : Reads n e t)
    (k : Reads n e u) : t = u := by
  have hf : Follows (α := α) 8 [] := ⟨nofun, nofun, nofun⟩
  exact (((h.of_le hn).takes (Nat.le_refl 8) hf ⟨rfl, rfl⟩).unique
    ((k.of_le hn).takes (Nat.le_refl 8) hf ⟨rfl, rfl⟩)).1

end FuzzyInference.CSource
