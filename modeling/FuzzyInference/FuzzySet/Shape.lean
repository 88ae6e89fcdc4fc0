import FuzzyInference.Fault.Basic
import FuzzyInference.Interpolation

/-!
# Shapes

The parametrized curves that fuzzy sets of numbers are made of: the degree of a number in each of
them, and what their parameters have to satisfy. A vertical edge, which two equal knots make, has
degree one at the knot of a straight-sided shape and of a spline that rises, and degree zero at the
knot of a spline that falls.
-/

namespace FuzzyInference

/-- A membership curve over the numbers. -/
inductive Shape (α : Type) where
  /-- A rise from `a` to `b` and a fall from `b` to `c`. -/
  | triangular (a b c : α)
  /-- A rise from `a` to `b`, a plateau up to `c`, and a fall to `d`. -/
  | trapezoidal (a b c d : α)
  /-- A bell of the given width around a centre. -/
  | gaussian (width center : α)
  /-- The left half of one bell and the right half of another, with a plateau between. -/
  | twoSidedGaussian (width₁ center₁ width₂ center₂ : α)
  /-- The bell `1 / (1 + |(x - c) / a| ^ (2 * b))`. -/
  | bell (a b c : α)
  /-- A logistic rise around a centre. -/
  | sigmoid (slope center : α)
  /-- The product of two sigmoids. -/
  | sigmoidProduct (slope₁ center₁ slope₂ center₂ : α)
  /-- The difference of two sigmoids, cut off to degrees. -/
  | sigmoidDifference (slope₁ center₁ slope₂ center₂ : α)
  /-- A quadratic rise from `a` to `b`. -/
  | sShaped (a b : α)
  /-- A quadratic fall from `a` to `b`. -/
  | zShaped (a b : α)
  /-- A quadratic rise from `a` to `b` and a quadratic fall from `c` to `d`. -/
  | piShaped (a b c d : α)
  /-- The polygon through the listed points. -/
  | piecewise (points : List (α × α))
  deriving Repr, BEq

namespace Shape

variable {α : Type}

/-- The name of a shape, in descriptions as in messages. -/
def name : Shape α → String
  | triangular .. => "triangular"
  | trapezoidal .. => "trapezoidal"
  | gaussian .. => "gaussian"
  | twoSidedGaussian .. => "gaussian2"
  | bell .. => "bell"
  | sigmoid .. => "sigmoid"
  | sigmoidProduct .. => "sigmoid_product"
  | sigmoidDifference .. => "sigmoid_difference"
  | sShaped .. => "s_shaped"
  | zShaped .. => "z_shaped"
  | piShaped .. => "pi_shaped"
  | piecewise _ => "piecewise"

variable [Scalar α]

/-- The height at `x` of the triangle with the given corners. -/
def triangle (x a b c : α) : α :=
  if x < a ∨ c < x then 0
  else if x < b then (if b == a then 1 else (x - a) / (b - a))
  else if c == b then 1
  else (c - x) / (c - b)

/-- The height at `x` of the trapezoid with the given corners. -/
def trapezoid (x a b c d : α) : α :=
  if x < a ∨ d < x then 0
  else if x < b then (if b == a then 1 else (x - a) / (b - a))
  else if x ≤ c then 1
  else (d - x) / (d - c)

/-- The height at `x` of a bell of the given width around `center`. -/
def gauss (x width center : α) : α :=
  Scalar.exp (-Scalar.square ((x - center) / width) / 2)

/-- The height at `x` of the halves of two bells around a plateau. -/
def gaussHalves (x width₁ center₁ width₂ center₂ : α) : α :=
  if x < center₁ then gauss x width₁ center₁
  else if center₂ < x then gauss x width₂ center₂
  else 1

/-- The height at `x` of the generalized bell. -/
def generalizedBell (x a b c : α) : α :=
  1 / (1 + Scalar.pow (Scalar.abs ((x - c) / a)) (2 * b))

/-- The height at `x` of the logistic curve. -/
def logistic (x slope center : α) : α := 1 / (1 + Scalar.exp (-slope * (x - center)))

/-- The height at `x` of two parabola halves that rise from 0 at `a` to 1 at `b` and meet midway. -/
def spline (x a b : α) : α :=
  if x < a then 0
  else if b ≤ x then 1
  else if x ≤ (a + b) / 2 then 2 * Scalar.square ((x - a) / (b - a))
  else 1 - 2 * Scalar.square ((x - b) / (b - a))

/-- The degree of a number in a shape. -/
def degree (x : α) : Shape α → α
  | triangular a b c => triangle x a b c
  | trapezoidal a b c d => trapezoid x a b c d
  | gaussian width center => gauss x width center
  | twoSidedGaussian width₁ center₁ width₂ center₂ => gaussHalves x width₁ center₁ width₂ center₂
  | bell a b c => generalizedBell x a b c
  | sigmoid slope center => logistic x slope center
  | sigmoidProduct slope₁ center₁ slope₂ center₂ =>
    logistic x slope₁ center₁ * logistic x slope₂ center₂
  | sigmoidDifference slope₁ center₁ slope₂ center₂ =>
    Scalar.clamp 0 1 (logistic x slope₁ center₁ - logistic x slope₂ center₂)
  | sShaped a b => spline x a b
  | zShaped a b => 1 - spline x a b
  | piShaped a b c d => spline x a b * (1 - spline x c d)
  | piecewise points => Interpolation.height x points

end Shape

namespace SetFault

variable {α : Type} [Scalar α]

/-- All parameters must be finite. -/
def requireFinite (shape : String) (parameters : List α) : Except (SetFault α) Unit :=
  if parameters.all Scalar.isFinite then .ok () else .error (.notFinite shape parameters)

/-- Some knot is greater than the one behind it. -/
def decreases : List α → Bool
  | a :: b :: rest => b < a || decreases (b :: rest)
  | _ => false

/-- Knots must be finite, and none greater than the one behind it. -/
def requireOrdered (shape : String) (knots : List α) : Except (SetFault α) Unit := do
  requireFinite shape knots
  if decreases knots then .error (.notOrdered shape knots) else .ok ()

/-- A width must not be zero. -/
def requireWidth (shape : String) (width : α) : Except (SetFault α) Unit :=
  if width == 0 then .error (.zeroWidth shape) else .ok ()

end SetFault

namespace Shape

variable {α : Type} [Scalar α]

open SetFault in
/-- What the parameters of a shape have to satisfy: finite numbers, knots in order, and widths that
are not zero. -/
def validate : Shape α → Except (SetFault α) Unit
  | triangular a b c => requireOrdered "triangular" [a, b, c]
  | trapezoidal a b c d => requireOrdered "trapezoidal" [a, b, c, d]
  | gaussian width center => do
    requireFinite "gaussian" [width, center]
    requireWidth "gaussian" width
  | twoSidedGaussian width₁ center₁ width₂ center₂ => do
    requireFinite "gaussian2" [width₁, width₂]
    requireWidth "gaussian2" width₁
    requireWidth "gaussian2" width₂
    requireOrdered "gaussian2 centers" [center₁, center₂]
  | bell a b c => do
    requireFinite "bell" [a, b, c]
    requireWidth "bell" a
  | sigmoid slope center => requireFinite "sigmoid" [slope, center]
  | sigmoidProduct slope₁ center₁ slope₂ center₂ =>
    requireFinite "sigmoid_product" [slope₁, center₁, slope₂, center₂]
  | sigmoidDifference slope₁ center₁ slope₂ center₂ =>
    requireFinite "sigmoid_difference" [slope₁, center₁, slope₂, center₂]
  | sShaped a b => requireOrdered "s_shaped" [a, b]
  | zShaped a b => requireOrdered "z_shaped" [a, b]
  | piShaped a b c d => requireOrdered "pi_shaped" [a, b, c, d]
  | piecewise points => do
    if points.isEmpty then .error .noPoints
    requireOrdered "piecewise" (points.map Prod.fst)
    requireFinite "piecewise" (points.map Prod.snd)

end Shape

end FuzzyInference
