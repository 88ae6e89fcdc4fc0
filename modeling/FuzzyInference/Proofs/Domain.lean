import FuzzyInference.Domain

/-!
# Defuzzification of functions

A set is reduced to a point by the degrees that it gives to the points of the mesh, and by nothing
else: what a domain does with a set, it does with the degrees as a function of the point.
-/

namespace FuzzyInference.Domain

variable {α : Type} [Scalar α]

/-- The point that a membership function on a domain is reduced to: a number by any method, a label
by the centroid method only. -/
def reduce (d : Domain α) (f : Point α → α) (method : Defuzzification) :
    Except (DomainFault α) (Point α) :=
  match d with
  | numeric d => .ok (.number (method.reduce d.mesh (d.mesh.map fun x ↦ f (.number x))))
  | categorical d =>
    if method ≠ .centroid then .error (.notOnLabels method d.name)
    else
      match d.labels with
      | [] => .error (.noLabels d.name)
      | label :: labels =>
        .ok (.label (CategoricalDomain.firstBest (fun l ↦ f (.label l)) (label, f (.label label))
          labels))

/-- Defuzzifying a set is reducing its degrees. -/
theorem defuzzify_eq_reduce (d : Domain α) (set : FuzzySet α) (method : Defuzzification)
    (ctx : Context) :
    d.defuzzify set method ctx = d.reduce (fun x ↦ set.degree ctx x) method := by
  cases d with
  | numeric d => rfl
  | categorical d =>
    unfold defuzzify reduce CategoricalDomain.defuzzify
    by_cases hmethod : method ≠ .centroid
    · simp only [if_pos hmethod, Except.map]
    · simp only [if_neg hmethod]
      cases d.labels <;> rfl

end FuzzyInference.Domain
