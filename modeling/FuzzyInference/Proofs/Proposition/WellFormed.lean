import FuzzyInference.Proofs.Proposition.Statement

/-!
# Well-formed propositions

What a proposition has to be like to mean something in a registry, said without its check: no
conjunction or disjunction in it is empty, and each of its valuations names a label that the
variable has. The check of a proposition accepts exactly such propositions.
-/

namespace FuzzyInference

open Result

variable {α : Type} [Scalar α]

/-- A handle stands for a variable that has a given label. -/
def Registry.HasLabel (r : Registry α) (h : Handle) (label : String) : Prop :=
  ∃ v, r.get h = .ok v ∧ label ∈ v.labels.names

omit [Scalar α] in
/-- A label stands for a set exactly when it is among the labels of the variable. -/
theorem Variable.exists_get_iff {v : Variable α} {label : String} :
    (∃ set, v.get label = .ok set) ↔ label ∈ v.labels.names := by
  rw [← not_iff_not, ← Table.get?_eq_none_iff, get]
  cases v.labels.get? label <;> simp

namespace Proposition

mutual

/-- Every proposition in a tree, a node before its operands. -/
def nodes : Proposition → List Proposition
  | is h label => [is h label]
  | isNot h label => [isNot h label]
  | not p => not p :: nodes p
  | and ps => and ps :: nodesAll ps
  | or ps => or ps :: nodesAll ps

/-- Every proposition in a list of trees. -/
def nodesAll : List Proposition → List Proposition
  | [] => []
  | p :: ps => nodes p ++ nodesAll ps

end

/-- A proposition in which every valuation and every combination means something. -/
@[mk_iff]
structure WellFormed (r : Registry α) (p : Proposition) : Prop where
  /-- No conjunction is empty. -/
  conjunctions : and [] ∉ p.nodes
  /-- No disjunction is empty. -/
  disjunctions : or [] ∉ p.nodes
  /-- Every valuation names a label of its variable. -/
  labels : ∀ a ∈ p.valuations, r.HasLabel a.1 a.2

/-- A label is accepted exactly when the variable behind the handle has it. -/
theorem validateLabel_eq_ok_iff_hasLabel {r : Registry α} {h : Handle} {label : String} :
    validateLabel r h label = .ok () ↔ r.HasLabel h label := by
  rw [validateLabel_eq_ok_iff, Registry.HasLabel]
  apply exists_congr
  intro v
  rw [exists_and_left, Variable.exists_get_iff]

/-- Propositions of which none has an empty combination and all valuations name labels. -/
private def WellFormedAll (r : Registry α) (ps : List Proposition) : Prop :=
  and [] ∉ nodesAll ps ∧ or [] ∉ nodesAll ps ∧ ∀ a ∈ valuationsAll ps, r.HasLabel a.1 a.2

private theorem wellFormed_combination_iff {r : Registry α} {p : Proposition}
    {ps : List Proposition} (hnodes : p.nodes = p :: nodesAll ps)
    (hvaluations : p.valuations = valuationsAll ps) (hp : p = and ps ∨ p = or ps) :
    p.WellFormed r ↔ ps.isEmpty = false ∧ WellFormedAll r ps := by
  have hempty : (p ≠ and [] ∧ p ≠ or []) ↔ ps.isEmpty = false := by
    rcases hp with rfl | rfl <;> simp
  rw [wellFormed_iff, hnodes, hvaluations, ← hempty, WellFormedAll]
  simp only [List.mem_cons, not_or, ne_eq, eq_comm (a := p)]
  tauto

mutual

/-- The check of a proposition accepts exactly the well-formed ones. -/
theorem validate_eq_ok_iff {r : Registry α} :
    {p : Proposition} → (p.validate r = .ok () ↔ p.WellFormed r)
  | is h label => by
    simp [validate, validateLabel_eq_ok_iff_hasLabel, wellFormed_iff, nodes, valuations]
  | isNot h label => by
    simp [validate, validateLabel_eq_ok_iff_hasLabel, wellFormed_iff, nodes, valuations]
  | not p => by
    rw [validate, validate_eq_ok_iff (p := p)]
    simp [wellFormed_iff, nodes, valuations]
  | and ps => by
    rw [validate_and_eq_ok_iff, validateAll_eq_ok_iff,
      wellFormed_combination_iff (by rw [nodes]) (by rw [valuations]) (.inl rfl)]
  | or ps => by
    rw [validate_or_eq_ok_iff, validateAll_eq_ok_iff,
      wellFormed_combination_iff (by rw [nodes]) (by rw [valuations]) (.inr rfl)]

private theorem validateAll_eq_ok_iff {r : Registry α} :
    {ps : List Proposition} → (validateAll r ps = .ok () ↔ WellFormedAll r ps)
  | [] => by simp [validateAll, WellFormedAll, nodesAll, valuationsAll]
  | p :: ps => by
    rw [validateAll, check_bind_eq_ok_iff, validate_eq_ok_iff (p := p), validateAll_eq_ok_iff,
      wellFormed_iff, WellFormedAll, WellFormedAll, nodesAll, valuationsAll,
      List.forall_mem_append]
    simp only [List.mem_append, not_or]
    tauto

end

end Proposition

end FuzzyInference
