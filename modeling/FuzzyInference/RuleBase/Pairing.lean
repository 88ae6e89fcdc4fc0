import FuzzyInference.RuleBase.Basic

/-!
# Paired rules

Rules made from two numeric variables alone: their labels are put in the order of their centroids
and paired, one rule for each pair.
-/

namespace FuzzyInference

variable {α : Type} [Scalar α]

namespace Variable

/-- The centroid of a label's set under the default context. -/
def labelCentroid (v : Variable α) (set : FuzzySet α) : Checked α α := do
  match ← (v.domain.centroid set).mapError Fault.domain with
  | .number c => return c
  | .label _ => .error (.rule (.unorderedLabels v.name))

/-- The labels in the order of their centroids. Equal centroids keep the order in which the labels
were given, and a label without a centroid comes last. -/
def orderedLabels (v : Variable α) : Checked α (List String) := do
  let centroids ← v.labels.entries.mapM fun (label, set) => do
    let c ← v.labelCentroid set
    return (label, c)
  return (centroids.mergeSort fun a b => Scalar.totalLE a.2 b.2).map Prod.fst

end Variable

/-- Two lists cut to the same length: when one has a middle element and exactly one element more
than the other, the middle element is left out. -/
def balance {β γ : Type} (xs : List β) (ys : List γ) : List β × List γ :=
  let n := xs.length
  let m := ys.length
  if n = m + 1 ∧ n % 2 = 1 then (xs.eraseIdx (n / 2), ys)
  else if n + 1 = m ∧ m % 2 = 1 then (xs, ys.eraseIdx (m / 2))
  else (xs, ys)

/-- One rule for each label of one variable, concluding on the label of another one that has the
same place in the order of centroids, or in its reverse. -/
def RuleBase.paired (r : Registry α) (antecedent consequent : Handle) (weight : α)
    (reverse : Bool) : Checked α (RuleBase α) := do
  let conditions ← (← (r.get antecedent).mapError Fault.lookup).orderedLabels
  let conclusions ← (← (r.get consequent).mapError Fault.lookup).orderedLabels
  let (xs, ys) := balance conditions conclusions
  if xs.length ≠ ys.length then
    .error (.rule (.unpairable conditions.length conclusions.length))
  let pairs := xs.zip (if reverse then ys.reverse else ys)
  let rules ← pairs.mapM fun (x, y) =>
    Rule.build (.is antecedent x) (.is consequent y) weight
  return ⟨rules⟩

end FuzzyInference
