import FuzzyInference.Scalar.Basic

/-!
# Divisors

A computation is accompanied by a list of the divisors that it takes. That none is missing is said
by changing the arithmetic: as long as quotients by the listed divisors are what they were, whatever
the other quotients are, the computation comes to the same.
-/

namespace FuzzyInference.Scalar

variable {α β : Type} [arithmetic : Scalar α] {q : α → α → α} {f : Scalar α → β} {ds es : List α}

/-- The arithmetic with another division. -/
@[reducible] def dividingBy (q : α → α → α) : Scalar α := { arithmetic with div := q }

/-- Quotients by the listed divisors are what they were. -/
def AgreesOn (q : α → α → α) (ds : List α) : Prop := ∀ y ∈ ds, ∀ x, q x y = x / y

/-- A computation takes no other divisors than the listed ones. -/
def DividesOnlyBy (f : Scalar α → β) (ds : List α) : Prop :=
  ∀ q : α → α → α, AgreesOn q ds → f (dividingBy q) = f arithmetic

/-- A computation that takes the listed divisors only, none of which is zero. So it does not matter
to it what a division by zero would give. -/
structure DividesSafely (f : Scalar α → β) (ds : List α) : Prop where
  /-- There are no other divisors. -/
  only : DividesOnlyBy f ds
  /-- The divisors are not zero. -/
  ne_zero : ∀ y ∈ ds, (y == 0) = false

/-- What agrees on a list agrees on a part of it. -/
theorem AgreesOn.mono (h : AgreesOn q es) (hsub : ds ⊆ es) : AgreesOn q ds :=
  fun y hy ↦ h y (hsub hy)

end FuzzyInference.Scalar
