import FuzzyInference.Scalar.Basic

/-!
# Piecewise linear interpolation

The function whose graph joins a list of points, ordered by their first coordinate, and which is
constant before the first point and behind the last one. Two points one above the other make a
vertical edge.
-/

namespace FuzzyInference.Interpolation

variable {α : Type} [Scalar α]

/-- The height at `x` on the line from `(x₁, y₁)` to `(x₂, y₂)`; the second height if the line is
vertical. -/
def lerp (x x₁ y₁ x₂ y₂ : α) : α :=
  if x₂ == x₁ then y₂ else y₁ + (x - x₁) * (y₂ - y₁) / (x₂ - x₁)

/-- The height at `x` from the first segment that spans it, else that of the last point if `x` is
not below it. -/
def heightFrom (x : α) : List (α × α) → α
  | [] => Scalar.nan
  | [(x₁, y₁)] => if x₁ ≤ x then y₁ else Scalar.nan
  | (x₁, y₁) :: (x₂, y₂) :: rest =>
    if x₁ ≤ x ∧ x ≤ x₂ then lerp x x₁ y₁ x₂ y₂ else heightFrom x ((x₂, y₂) :: rest)

/-- The height at `x` of the polygon through `points`, and `nan` if there are no points. -/
def height (x : α) (points : List (α × α)) : α :=
  match points with
  | [] => Scalar.nan
  | (x₁, y₁) :: _ => if x < x₁ then y₁ else heightFrom x points

end FuzzyInference.Interpolation
