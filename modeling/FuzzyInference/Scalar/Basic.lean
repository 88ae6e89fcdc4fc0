/-!
# Scalars

The arithmetic that degrees, points and parameters are computed in. Every formula of the library is
written once over `Scalar`, in the order in which it is to be evaluated, so that the same definition
has a machine meaning (`Float`) and an exact one (any instance that computes without rounding).

The operations that the class does not list (`min`, `max`, `clamp`, `square`) are defined here from
those it does.
-/

namespace FuzzyInference

/-- A type of numbers with the operations that fuzzy evaluation needs. Comparisons are decidable;
equality is the Boolean `==`, since a value that is no number differs from itself. -/
class Scalar (α : Type) extends Add α, Sub α, Mul α, Div α, Neg α, LT α, LE α, BEq α where
  /-- Strict comparison can be decided. -/
  decidableLT : DecidableLT α
  /-- Comparison can be decided. -/
  decidableLE : DecidableLE α
  /-- The number nearest to a natural number. -/
  ofNat : Nat → α
  /-- The number nearest to `digits * 10 ^ exponent`. -/
  ofDecimal (digits : Nat) (exponent : Int) : α
  /-- The infinity above all numbers. -/
  infinity : α
  /-- The value that is no number. -/
  nan : α
  /-- A number proper: neither an infinity nor `nan`. -/
  isFinite : α → Bool
  /-- Absolute value. -/
  abs : α → α
  /-- The natural exponential. -/
  exp : α → α
  /-- The power of a base to an arbitrary exponent. -/
  pow : α → α → α
  /-- The least natural number that is not below a scalar, and zero for `nan`. That of a machine
  number does not exceed a machine word. -/
  ceilNat : α → Nat
  /-- A total preorder: numbers by value, and `nan` after all of them. -/
  totalLE : α → α → Bool

namespace Scalar

variable {α : Type} [Scalar α]

instance : DecidableLT α := decidableLT

instance : DecidableLE α := decidableLE

/-- Numerals stand for the scalars nearest to them. -/
instance (priority := low) (n : Nat) : OfNat α n := ⟨Scalar.ofNat n⟩

/-- Only `nan` differs from itself. -/
def isNan (x : α) : Bool := !(x == x)

/-- The smaller of two scalars; a number is preferred to `nan`. -/
def min (x y : α) : α :=
  if isNan x then y else if isNan y then x else if y < x then y else x

/-- The larger of two scalars; a number is preferred to `nan`. -/
def max (x y : α) : α :=
  if isNan x then y else if isNan y then x else if x < y then y else x

/-- `x` kept within `[low, high]`. -/
def clamp (low high x : α) : α :=
  if x < low then low else if high < x then high else x

/-- The product of a scalar with itself. -/
def square (x : α) : α := x * x

end Scalar

end FuzzyInference
