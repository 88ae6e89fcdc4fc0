import FuzzyInference.CSource.Degree
import FuzzyInference.Proofs.CSource.Evaluation
import Mathlib.Data.List.Forall2

/-!
# What written expressions mean

The level and the number of an expression, from those of the expressions that it is written with.
An operand keeps its meaning beside an operator if its level is low enough for the side that it
stands on; in parentheses, and as an argument, every expression keeps it.
-/

namespace FuzzyInference.CSource

variable {α : Type} [Scalar α] {functions : Functions α} {env : Environment α}

/-- An expression is of a level and stands for a floating number. -/
def Means (functions : Functions α) (env : Environment α) (n : Nat) (e : Expression α) (x : α) :
    Prop :=
  ∃ t, Reads n e t ∧ t.value functions env = some (.floating x)

/-- An expression is of a level and stands for a condition that holds or not. -/
def Holds (functions : Functions α) (env : Environment α) (n : Nat) (e : Expression α)
    (b : Bool) : Prop :=
  ∃ t, Reads n e t ∧ t.value functions env = some (.ofBool b)

/-- An expression stands for a number where one is passed to a function. -/
def Passes (functions : Functions α) (env : Environment α) (e : Expression α) (x : α) : Prop :=
  ∃ t v, Reads 8 e t ∧ t.value functions env = some v ∧ v.toFloating = x

namespace Means

variable {e l r : Expression α} {x y z : α} {m n : Nat}

/-- An expression of some level is one of every higher level. -/
theorem of_le (hmn : m ≤ n) (h : Means functions env m e x) : Means functions env n e x := by
  obtain ⟨t, ht, hv⟩ := h
  exact ⟨t, ht.of_le hmn, hv⟩

/-- What an expression means is its value. -/
theorem valueOf_eq (hn : n ≤ 8) (h : Means functions env n e x) :
    valueOf functions env e = some (.floating x) := by
  obtain ⟨t, ht, hv⟩ := h
  rw [valueOf, reading_eq hn ht]
  exact hv

/-- An expression means one number. -/
theorem unique (hn : n ≤ 8) (h : Means functions env n e x) (k : Means functions env n e y) :
    x = y := by
  have he := (h.valueOf_eq hn).symm.trans (k.valueOf_eq hn)
  cases he
  rfl

/-- A literal stands for its number. -/
theorem number (x : α) : Means functions env 0 (literal x) x :=
  ⟨_, .number x, rfl⟩

/-- A name stands for what the environment says. -/
theorem name {s : String} (h : env s = some (.floating x)) : Means functions env 0 [.name s] x :=
  ⟨_, .variable s, h⟩

/-- In parentheses every expression keeps its meaning. -/
theorem group (hn : n ≤ 8) (h : Means functions env n e x) :
    Means functions env 0 (Expression.grouped e) x := by
  obtain ⟨t, ht, hv⟩ := h
  exact ⟨t, .group (ht.of_le hn), hv⟩

/-- A sign in front of an operand. -/
theorem negation (h : Means functions env 1 e x) : Means functions env 1 (.negative :: e) (-x) := by
  obtain ⟨t, ht, hv⟩ := h
  exact ⟨_, .negation ht, by simp only [Term.value, hv]; rfl⟩

private theorem binary {w : Token α} (op : BinaryOperator) (hw : w.operator? = some op)
    (hl : op.level = n + 1) (hz : op.applyFloating x y = .floating z)
    (h : Means functions env (n + 1) l x) (k : Means functions env n r y) :
    Means functions env (n + 1) (l ++ w :: r) z := by
  obtain ⟨t, ht, hv⟩ := h
  obtain ⟨u, hu, hw'⟩ := k
  refine ⟨_, .binary hw hl ht hu, ?_⟩
  simp only [Term.value, hv, hw']
  exact congrArg some hz

/-- A sum, whose right operand is at most a product. -/
theorem plus (h : Means functions env 3 l x) (k : Means functions env 2 r y) :
    Means functions env 3 (l ++ .plus :: r) (x + y) :=
  binary .plus rfl rfl rfl h k

/-- A difference, whose right operand is at most a product. -/
theorem minus (h : Means functions env 3 l x) (k : Means functions env 2 r y) :
    Means functions env 3 (l ++ .minus :: r) (x - y) :=
  binary .minus rfl rfl rfl h k

/-- A product, whose right operand is at most a signed one. -/
theorem times (h : Means functions env 2 l x) (k : Means functions env 1 r y) :
    Means functions env 2 (l ++ .times :: r) (x * y) :=
  binary .times rfl rfl rfl h k

/-- A quotient, whose right operand is at most a signed one. -/
theorem slash (h : Means functions env 2 l x) (k : Means functions env 1 r y) :
    Means functions env 2 (l ++ .slash :: r) (x / y) :=
  binary .slash rfl rfl rfl h k

/-- A choice between two expressions that both have a meaning. -/
theorem choice {c : Expression α} {b : Bool} (hc : Holds functions env 7 c b)
    (hy : Means functions env 8 l x) (hn : Means functions env 8 r y) :
    Means functions env 8 (Expression.choice c l r) (if b then x else y) := by
  obtain ⟨t, ht, hv⟩ := hc
  obtain ⟨u, hu, hx⟩ := hy
  obtain ⟨w, hw, hy⟩ := hn
  refine ⟨_, .choice ht hu hw, ?_⟩
  cases b with
  | false => simpa [Term.value, hv] using hy
  | true => simpa [Term.value, hv] using hx

/-- An expression stands for its number where it is passed to a function. -/
theorem passes (hn : n ≤ 8) (h : Means functions env n e x) : Passes functions env e x := by
  obtain ⟨t, ht, hv⟩ := h
  exact ⟨t, _, ht.of_le hn, hv, rfl⟩

/-- A function applied to arguments, if its name is not that of a variable. -/
theorem call {function : String} {es : List (Expression α)} {xs : List α}
    (henv : env function = none) (hne : es ≠ [])
    (hes : List.Forall₂ (Passes functions env) es xs) (hf : functions function xs = some x) :
    Means functions env 0 (Expression.call function es) x := by
  have hargs : ∃ ts, ReadAll es ts ∧ argumentValues functions env ts = some xs := by
    clear hf
    induction hes with
    | nil => exact absurd rfl hne
    | @cons e x es xs he hes ih =>
      obtain ⟨t, v, ht, hv, rfl⟩ := he
      cases es with
      | nil =>
        cases hes
        exact ⟨[t], .one ht, by simp [argumentValues, hv]⟩
      | cons e' es =>
        obtain ⟨ts, hts, hxs⟩ := ih (by simp)
        exact ⟨t :: ts, .more ht hts, by simp [argumentValues, hv, hxs]⟩
  obtain ⟨ts, hts, hxs⟩ := hargs
  exact ⟨_, .call hts, by simp [Term.value, hxs, henv, hf]⟩

end Means

namespace Holds

variable {l r : Expression α} {x y : α} {n : Nat}

private theorem relation {w : Token α} (op : BinaryOperator) {b : Bool}
    (hw : w.operator? = some op) (hl : op.level = n + 1)
    (hb : op.applyFloating x y = .ofBool b) (h : Means functions env (n + 1) l x)
    (k : Means functions env n r y) : Holds functions env (n + 1) (l ++ w :: r) b := by
  obtain ⟨t, ht, hv⟩ := h
  obtain ⟨u, hu, hw'⟩ := k
  refine ⟨_, .binary hw hl ht hu, ?_⟩
  simp only [Term.value, hv, hw']
  exact congrArg some hb

/-- A condition of some level is one of every higher level. -/
theorem of_le {m n : Nat} (hmn : m ≤ n) {e : Expression α} {b : Bool}
    (h : Holds functions env m e b) : Holds functions env n e b := by
  obtain ⟨t, ht, hv⟩ := h
  exact ⟨t, ht.of_le hmn, hv⟩

/-- Equality of numbers. -/
theorem equal (h : Means functions env 0 l x) (k : Means functions env 0 r y) :
    Holds functions env 7 (l ++ .equal :: r) (x == y) :=
  (relation .equal rfl rfl rfl (h.of_le (n := 5) (by decide)) (k.of_le (by decide))).of_le
    (by decide)

/-- Strict comparison of numbers. -/
theorem less (h : Means functions env 0 l x) (k : Means functions env 2 r y) :
    Holds functions env 4 (l ++ .less :: r) (decide (x < y)) :=
  relation .less rfl rfl rfl (h.of_le (by decide)) (k.of_le (by decide))

/-- Comparison of numbers. -/
theorem lessEqual (h : Means functions env 0 l x) (k : Means functions env 2 r y) :
    Holds functions env 4 (l ++ .lessEqual :: r) (decide (x ≤ y)) :=
  relation .lessEqual rfl rfl rfl (h.of_le (by decide)) (k.of_le (by decide))

/-- Strict comparison of numbers, the other way round. -/
theorem greater (h : Means functions env 0 l x) (k : Means functions env 2 r y) :
    Holds functions env 4 (l ++ .greater :: r) (decide (y < x)) :=
  relation .greater rfl rfl rfl (h.of_le (by decide)) (k.of_le (by decide))

/-- Comparison of numbers, the other way round. -/
theorem greaterEqual (h : Means functions env 0 l x) (k : Means functions env 2 r y) :
    Holds functions env 4 (l ++ .greaterEqual :: r) (decide (y ≤ x)) :=
  relation .greaterEqual rfl rfl rfl (h.of_le (by decide)) (k.of_le (by decide))

/-- One of two conditions. -/
theorem either {l r : Expression α} {b c : Bool} (h : Holds functions env 7 l b)
    (k : Holds functions env 6 r c) : Holds functions env 7 (l ++ .either :: r) (b || c) := by
  obtain ⟨t, ht, hv⟩ := h
  obtain ⟨u, hu, hw⟩ := k
  refine ⟨_, .binary rfl rfl ht hu, ?_⟩
  simp only [Term.value, hv, hw]
  cases b <;> cases c <;> rfl

end Holds

end FuzzyInference.CSource
