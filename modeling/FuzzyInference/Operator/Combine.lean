import FuzzyInference.Operator.Basic
import FuzzyInference.Scalar.Basic

/-!
# Combining degrees

The meaning of the conjunctions, disjunctions and implications on lists of degrees. Sums and
products run from left to right. A combination of no degrees is the neutral one: one for a
conjunction and zero for a disjunction.
-/

namespace FuzzyInference

variable {α : Type} [Scalar α]

namespace Scalar

/-- The least of a list of scalars, when there is one. -/
def minimum? : List α → Option α
  | [] => none
  | x :: xs => some (xs.foldl min x)

/-- The greatest of a list of scalars, when there is one. -/
def maximum? : List α → Option α
  | [] => none
  | x :: xs => some (xs.foldl max x)

/-- The sum of a list of scalars. -/
def sum (xs : List α) : α := xs.foldl (· + ·) 0

/-- The product of a list of scalars. -/
def product (xs : List α) : α := xs.foldl (· * ·) 1

end Scalar

/-- The degree to which all conditions hold that hold to the given degrees. -/
def Conjunction.combine (op : Conjunction) (degrees : List α) : α :=
  match op with
  | minimum => (Scalar.minimum? degrees).getD 1
  | product => Scalar.product degrees
  | lukasiewicz => Scalar.max 0 (Scalar.sum degrees - (Scalar.ofNat degrees.length - 1))

/-- The degree to which one of several alternatives holds that hold to the given degrees. -/
def Disjunction.combine (op : Disjunction) (degrees : List α) : α :=
  match op with
  | maximum => (Scalar.maximum? degrees).getD 0
  | probabilisticSum => 1 - Scalar.product (degrees.map (1 - ·))
  | boundedSum => Scalar.min 1 (Scalar.sum degrees)

/-- The membership of a conclusion that is drawn to a degree. -/
def Implication.apply (op : Implication) (degree membership : α) : α :=
  match op with
  | minimum => Scalar.min degree membership
  | product => degree * membership

end FuzzyInference
