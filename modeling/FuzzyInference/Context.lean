import FuzzyInference.Operator.Basic

/-!
# Evaluation contexts

A context fixes one operator of each family. Propositions and sets carry no operators of their own
(an n-ary set may), so everything is evaluated under a context.
-/

namespace FuzzyInference

/-- The operators in force during an evaluation. -/
structure Context where
  /-- How the output set is reduced to a value. -/
  defuzzification : Defuzzification := .centroid
  /-- How the outputs of the rules are put together. -/
  aggregation : Disjunction := .maximum
  /-- How a rule's degree acts on its conclusion. -/
  implication : Implication := .minimum
  /-- The conjunction of propositions, and of sets that name none. -/
  conjunction : Conjunction := .minimum
  /-- The disjunction of propositions, and of sets that name none. -/
  disjunction : Disjunction := .maximum
  deriving Repr, DecidableEq

instance : Inhabited Context := ⟨{}⟩

end FuzzyInference
