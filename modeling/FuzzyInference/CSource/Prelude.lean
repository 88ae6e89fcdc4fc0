import FuzzyInference.CSource.Function
import FuzzyInference.Scalar.Basic

/-!
# Prelude

The C functions that generated expressions call: the curves that sets are made of, and the height of
a segment between two points.
-/

namespace FuzzyInference.CSource

open Token Expression

variable {α : Type} [Scalar α]

/-- The height at `x` of the line through two points, and that of the second point if they are above
each other. -/
def lerpFunction : Function α where
  internal := true
  name := "fz_lerp"
  parameters := ["x", "x1", "y1", "x2", "y2"]
  body :=
    let x := name "x"
    let x₁ := name "x1"
    let y₁ := name "y1"
    let x₂ := name "x2"
    let y₂ := name "y2"
    [.result (choice [x₂, equal, x₁] [y₂]
      (y₁ :: plus :: grouped [x, minus, x₁] ++ times :: grouped [y₂, minus, y₁] ++
        slash :: grouped [x₂, minus, x₁]))]

/-- The height along the edge between two knots: one if the edge is vertical, and a quotient if
not. -/
def edge (low high : Token α) (top bottom : Expression α) : Expression α :=
  choice [high, equal, low] [number 1] (grouped top ++ slash :: grouped bottom)

/-- The height at `x` of the triangle with the given corners. -/
def triangularFunction : Function α where
  internal := true
  name := "fz_triangular"
  parameters := ["x", "a", "b", "c"]
  body :=
    let x := name "x"
    let a := name "a"
    let b := name "b"
    let c := name "c"
    [.resultIf [x, less, a, either, x, greater, c] [number 0],
      .resultIf [x, less, b] (edge a b [x, minus, a] [b, minus, a]),
      .result (edge b c [c, minus, x] [c, minus, b])]

/-- The height at `x` of the trapezoid with the given corners. -/
def trapezoidalFunction : Function α where
  internal := true
  name := "fz_trapezoidal"
  parameters := ["x", "a", "b", "c", "d"]
  body :=
    let x := name "x"
    let a := name "a"
    let b := name "b"
    let c := name "c"
    let d := name "d"
    [.resultIf [x, less, a, either, x, greater, d] [number 0],
      .resultIf [x, less, b] (edge a b [x, minus, a] [b, minus, a]),
      .resultIf [x, lessEqual, c] [number 1],
      .result (grouped [d, minus, x] ++ slash :: grouped [d, minus, c])]

/-- The height at `x` of a bell of width `a` around `c`. -/
def gaussianFunction : Function α where
  internal := true
  name := "fz_gaussian"
  parameters := ["x", "a", "c"]
  body :=
    let ratio := grouped [name "x", minus, name "c"] ++ [slash, name "a"]
    [.result (call "exp" [negative :: call "pow" [ratio, [whole 2]] ++ [slash, number 2]])]

/-- The height at `x` of the halves of two bells around a plateau. -/
def twoSidedGaussianFunction : Function α where
  internal := true
  name := "fz_gaussian2"
  parameters := ["x", "a1", "c1", "a2", "c2"]
  body :=
    let x := name "x"
    let a₁ := name "a1"
    let c₁ := name "c1"
    let a₂ := name "a2"
    let c₂ := name "c2"
    [.resultIf [x, less, c₁] (call "fz_gaussian" [[x], [a₁], [c₁]]),
      .resultIf [x, greater, c₂] (call "fz_gaussian" [[x], [a₂], [c₂]]),
      .result [number 1]]

/-- The height at `x` of the generalized bell. -/
def bellFunction : Function α where
  internal := true
  name := "fz_bell"
  parameters := ["x", "a", "b", "c"]
  body :=
    let ratio := grouped [name "x", minus, name "c"] ++ [slash, name "a"]
    let power := call "pow" [call "fabs" [ratio], [number 2, times, name "b"]]
    [.result (number 1 :: slash :: grouped (number 1 :: plus :: power))]

/-- The height at `x` of the logistic curve. -/
def sigmoidFunction : Function α where
  internal := true
  name := "fz_sigmoid"
  parameters := ["x", "a", "c"]
  body :=
    let exponent := negative :: name "a" :: times :: grouped [name "x", minus, name "c"]
    [.result (number 1 :: slash :: grouped (number 1 :: plus :: call "exp" [exponent]))]

/-- The height at `x` of two parabola halves that rise from 0 at `a` to 1 at `b`. -/
def sShapedFunction : Function α where
  internal := true
  name := "fz_s_shaped"
  parameters := ["x", "a", "b"]
  body :=
    let x := name "x"
    let a := name "a"
    let b := name "b"
    let half := fun knot : Token α =>
      call "pow" [grouped [x, minus, knot] ++ slash :: grouped [b, minus, a], [whole 2]]
    [.resultIf [x, less, a] [number 0],
      .resultIf [x, greaterEqual, b] [number 1],
      .resultIf (x :: lessEqual :: grouped [a, plus, b] ++ [slash, number 2])
        (number 2 :: times :: half a),
      .result (number 1 :: minus :: number 2 :: times :: half b)]

/-- The functions of the prelude, each behind those that it calls. -/
def prelude : List (Function α) :=
  [lerpFunction, triangularFunction, trapezoidalFunction, gaussianFunction,
    twoSidedGaussianFunction, bellFunction, sigmoidFunction, sShapedFunction]

end FuzzyInference.CSource
