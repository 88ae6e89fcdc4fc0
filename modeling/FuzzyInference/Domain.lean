import FuzzyInference.Defuzzify
import FuzzyInference.FuzzySet.Basic
import FuzzyInference.Mesh

/-!
# Domains

The universes that fuzzy sets are sampled on: an interval with a mesh, or a list of labels. A domain
reduces a set to one of its points: on an interval by any defuzzification method, on labels as the
first label of greatest degree.
-/

namespace FuzzyInference

/-- An interval and how finely it is sampled. -/
structure NumericDomain (α : Type) where
  /-- The name of the domain. -/
  name : String
  /-- The lower bound. -/
  low : α
  /-- The upper bound. -/
  high : α
  /-- How finely the interval is sampled. -/
  steps : Steps α
  deriving Repr, BEq

/-- A list of labels. -/
structure CategoricalDomain where
  /-- The name of the domain. -/
  name : String
  /-- The labels, in order. -/
  labels : List String
  deriving Repr, BEq

/-- A universe of discourse. -/
inductive Domain (α : Type) where
  /-- An interval. -/
  | numeric (domain : NumericDomain α)
  /-- A list of labels. -/
  | categorical (domain : CategoricalDomain)
  deriving Repr, BEq

variable {α : Type} [Scalar α]

namespace NumericDomain

/-- The bounds must be finite and ascending, and a step size finite and positive. -/
def validate (d : NumericDomain α) : Except (DomainFault α) Unit := do
  unless Scalar.isFinite d.low && Scalar.isFinite d.high && d.low < d.high do
    .error (.bounds d.name d.low d.high)
  match d.steps with
  | .count _ => .ok ()
  | .size h => if Scalar.isFinite h && 0 < h then .ok () else .error (.stepSize d.name h)

/-- The points at which the interval is sampled. -/
def mesh (d : NumericDomain α) : List α := Mesh.points d.low d.high d.steps

/-- The degrees of a set on the mesh. -/
def degrees (d : NumericDomain α) (set : FuzzySet α) (ctx : Context) : List α :=
  d.mesh.map fun x => set.degree ctx (.number x)

/-- The number that a set on the interval is reduced to. -/
def defuzzify (d : NumericDomain α) (set : FuzzySet α) (method : Defuzzification)
    (ctx : Context) : α :=
  method.reduce d.mesh (d.degrees set ctx)

end NumericDomain

namespace CategoricalDomain

/-- There must be labels. -/
def validate (d : CategoricalDomain) : Except (DomainFault α) Unit :=
  if d.labels.isEmpty then .error (.noLabels d.name) else .ok ()

/-- The label of greatest degree among a best one so far and further labels; a later label has to be
strictly better. -/
def firstBest (degree : String → α) (best : String × α) : List String → String
  | [] => best.1
  | label :: labels =>
    let d := degree label
    firstBest degree (if best.2 < d then (label, d) else best) labels

/-- The label that a set on the labels is reduced to: the first one of greatest degree. Only the
centroid method is defined on labels. -/
def defuzzify (d : CategoricalDomain) (set : FuzzySet α) (method : Defuzzification)
    (ctx : Context) : Except (DomainFault α) String :=
  if method ≠ .centroid then .error (.notOnLabels method d.name)
  else
    let degree := fun label => set.degree ctx (.label label)
    match d.labels with
    | [] => .error (.noLabels d.name)
    | label :: labels => .ok (firstBest degree (label, degree label) labels)

end CategoricalDomain

namespace Domain

/-- The name of a domain. -/
def name : Domain α → String
  | numeric d => d.name
  | categorical d => d.name

/-- A domain must meet the conditions of its kind. -/
def validate : Domain α → Except (DomainFault α) Unit
  | numeric d => d.validate
  | categorical d => d.validate

/-- The points at which a domain is sampled, in order. -/
def mesh : Domain α → List (Point α)
  | numeric d => d.mesh.map .number
  | categorical d => d.labels.map .label

/-- The degrees of a set on the mesh. -/
def degrees (d : Domain α) (set : FuzzySet α) (ctx : Context) : List α := set.sample ctx d.mesh

/-- The point that a set on the domain is reduced to. -/
def defuzzify (d : Domain α) (set : FuzzySet α) (method : Defuzzification) (ctx : Context) :
    Except (DomainFault α) (Point α) :=
  match d with
  | numeric d => .ok (.number (d.defuzzify set method ctx))
  | categorical d => (d.defuzzify set method ctx).map .label

/-- The centroid of a set under the default context. -/
def centroid (d : Domain α) (set : FuzzySet α) : Except (DomainFault α) (Point α) :=
  d.defuzzify set .centroid {}

/-- A domain, provided that it is valid. -/
def checked (d : Domain α) : Checked α (Domain α) :=
  match d.validate with
  | .ok _ => .ok d
  | .error cause => .error (.domain cause)

end Domain

end FuzzyInference
