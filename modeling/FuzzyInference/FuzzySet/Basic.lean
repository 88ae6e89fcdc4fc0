import FuzzyInference.Context
import FuzzyInference.FuzzySet.Shape
import FuzzyInference.Operator.Combine
import FuzzyInference.Point
import FuzzyInference.Table

/-!
# Fuzzy sets

A fuzzy set gives every point of a universe a degree. Sets are trees: leaves are points, tables,
constants and shapes; nodes complement, scale, clip or combine other sets. A union or intersection
that names no operator takes that of the context in which it is evaluated.
-/

namespace FuzzyInference

/-- A fuzzy set of points. -/
inductive FuzzySet (α : Type) where
  /-- Degree one at `x` alone. -/
  | singleton (x : Point α)
  /-- The listed degrees at the points that the keys name, and zero elsewhere. -/
  | discrete (degrees : Table α)
  /-- The same degree everywhere. -/
  | constant (value : α)
  /-- A curve over the numbers, and degree zero at labels. -/
  | shape (curve : Shape α)
  /-- The complement of a set. -/
  | not (set : FuzzySet α)
  /-- The degrees of a set, multiplied by a factor. -/
  | scale (set : FuzzySet α) (factor : α)
  /-- A set that is concluded to a degree. -/
  | implication (op : Implication) (degree : α) (set : FuzzySet α)
  /-- The union of sets. -/
  | or (op? : Option Disjunction) (sets : List (FuzzySet α))
  /-- The intersection of sets. -/
  | and (op? : Option Conjunction) (sets : List (FuzzySet α))
  deriving Inhabited

namespace FuzzySet

variable {α : Type}

/-- The set is not composed of other sets. -/
def isLeaf : FuzzySet α → Bool
  | not _ | scale .. | implication .. | or .. | and .. => false
  | singleton _ | discrete _ | constant _ | shape _ => true

variable [Scalar α]

/-- The degree that a table gives to a point: that of the first key naming it. -/
def listedDegree (x : Point α) (degrees : Table α) : α :=
  match degrees.entries.find? fun entry => x.matchesKey entry.1 with
  | some (_, degree) => degree
  | none => 0

mutual

/-- The degree of a point in a set under a context. -/
def degree (ctx : Context) (x : Point α) : FuzzySet α → α
  | singleton x₀ => if x₀ == x then 1 else 0
  | discrete table => listedDegree x table
  | constant value => value
  | shape curve =>
    match x with
    | .number n => curve.degree n
    | .label _ => 0
  | not set => 1 - degree ctx x set
  | scale set factor => factor * degree ctx x set
  | implication op truth set => op.apply truth (degree ctx x set)
  | or op? sets => (op?.getD ctx.disjunction).combine (degrees ctx x sets)
  | and op? sets => (op?.getD ctx.conjunction).combine (degrees ctx x sets)

/-- The degrees of a point in several sets, in their order. -/
def degrees (ctx : Context) (x : Point α) : List (FuzzySet α) → List α
  | [] => []
  | set :: sets => degree ctx x set :: degrees ctx x sets

end

/-- The degree of a number under the default context. -/
def membership (set : FuzzySet α) (x : α) : α := set.degree {} (.number x)

/-- The degrees of a set at a list of points. -/
def sample (set : FuzzySet α) (ctx : Context) (points : List (Point α)) : List α :=
  points.map fun x => set.degree ctx x

mutual

/-- Every parameter in the tree must be valid, and every union and intersection must have operands.
The first violation from left to right is reported, a node before its operands. -/
def validate : FuzzySet α → Except (SetFault α) Unit
  | singleton (.number x) => SetFault.requireFinite "singleton" [x]
  | singleton (.label _) => .ok ()
  | discrete table => SetFault.requireFinite "discrete" table.values
  | constant value => SetFault.requireFinite "constant" [value]
  | shape curve => curve.validate
  | not set => validate set
  | scale set factor => do
    SetFault.requireFinite "scale" [factor]
    validate set
  | implication _ truth set => do
    SetFault.requireFinite "implication" [truth]
    validate set
  | or _ sets => if sets.isEmpty then .error .noOperands else validateAll sets
  | and _ sets => if sets.isEmpty then .error .noOperands else validateAll sets

/-- Every set of a list must be valid. -/
def validateAll : List (FuzzySet α) → Except (SetFault α) Unit
  | [] => .ok ()
  | set :: sets => do
    validate set
    validateAll sets

end

/-- A set, provided that it is valid. -/
def checked (set : FuzzySet α) : Checked α (FuzzySet α) :=
  match set.validate with
  | .ok _ => .ok set
  | .error cause => .error (.set cause)

mutual

/-- Two sets are built alike. Tables are compared without regard to order, and a parameter that is
no number differs from itself. -/
def same : FuzzySet α → FuzzySet α → Bool
  | singleton x, singleton y => x == y
  | discrete s, discrete t => s.agrees (· == ·) t
  | constant v, constant w => v == w
  | shape s, shape t => s == t
  | not s, not t => same s t
  | scale s k, scale t l => k == l && same s t
  | implication f d s, implication g e t => f == g && d == e && same s t
  | or f? ss, or g? ts => f? == g? && sameAll ss ts
  | and f? ss, and g? ts => f? == g? && sameAll ss ts
  | _, _ => false

/-- Two lists hold sets that are built alike. -/
def sameAll : List (FuzzySet α) → List (FuzzySet α) → Bool
  | [], [] => true
  | s :: ss, t :: ts => same s t && sameAll ss ts
  | _, _ => false

end

instance : BEq (FuzzySet α) := ⟨same⟩

instance : Neg (FuzzySet α) := ⟨not⟩

instance : HMul (FuzzySet α) α (FuzzySet α) := ⟨scale⟩

instance : OrOp (FuzzySet α) := ⟨fun s t => or none [s, t]⟩

instance : AndOp (FuzzySet α) := ⟨fun s t => and none [s, t]⟩

end FuzzySet

end FuzzyInference
