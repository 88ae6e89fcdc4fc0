import FuzzyInference.FisText.Reader
import FuzzyInference.Interchange.FuzzySystem
import FuzzyInference.Proofs.FuzzySet.WellFormed
import FuzzyInference.Proofs.FuzzySystem.Reload
import FuzzyInference.Proofs.Proposition.WellFormed

/-!
# Well-formed systems

What makes a system well-formed, said without any of the checks: its handles stand for variables,
the target is no input, names are distinct, domains and sets are sound at every depth, and every
rule concludes on a label of the target from labels of the inputs with a weight in `(0, 1]`.

The construction of a system accepts exactly the well-formed ones, so whatever way a system was
obtained in, it is well-formed.
-/

namespace FuzzyInference

open Result

variable {α : Type} [Scalar α]

/-! ### Domains and variables -/

/-- An interval between finite bounds with a positive step size if it has one, or some labels. -/
def Domain.WellFormed : Domain α → Prop
  | numeric d => Scalar.isFinite d.low = true ∧ Scalar.isFinite d.high = true ∧ d.low < d.high ∧
      ∀ h, d.steps = .size h → Scalar.isFinite h = true ∧ 0 < h
  | categorical d => d.labels ≠ []

/-- The check of an interval accepts exactly the sound ones. -/
theorem NumericDomain.validate_eq_ok_iff {d : NumericDomain α} :
    d.validate = .ok () ↔ (Domain.numeric d).WellFormed := by
  obtain ⟨name, low, high, steps⟩ := d
  cases steps with
  | count n =>
    have hvalidate : validate ⟨name, low, high, .count n⟩ = .ok () ↔
        (Scalar.isFinite low && Scalar.isFinite high && decide (low < high)) = true ∧
          (.ok () : Except (DomainFault α) Unit) = .ok () := require_eq_ok_iff
    simp [hvalidate, Domain.WellFormed, and_assoc]
  | size h =>
    have hvalidate : validate ⟨name, low, high, .size h⟩ = .ok () ↔
        (Scalar.isFinite low && Scalar.isFinite high && decide (low < high)) = true ∧
          (if Scalar.isFinite h && 0 < h then .ok () else .error (.stepSize name h) :
            Except (DomainFault α) Unit) = .ok () := require_eq_ok_iff
    simp [hvalidate, Domain.WellFormed, and_assoc]

/-- The check of a domain accepts exactly the well-formed ones. -/
theorem Domain.validate_eq_ok_iff {d : Domain α} : d.validate = .ok () ↔ d.WellFormed := by
  cases d with
  | numeric d => exact NumericDomain.validate_eq_ok_iff
  | categorical d =>
    rw [validate, CategoricalDomain.validate, WellFormed]
    split <;> simp_all

/-- A variable with a sound domain and sound sets. -/
structure Variable.WellFormed (v : Variable α) : Prop where
  /-- The domain is sound. -/
  domain : v.domain.WellFormed
  /-- The sets behind the labels are sound. -/
  sets : ∀ set ∈ v.labels.values, set.WellFormed

/-- The check of a variable accepts exactly the well-formed ones. -/
theorem Variable.validate_eq_ok_iff [Scalar.OrderedFinite α] {v : Variable α} :
    v.validate = .ok () ↔ v.WellFormed := by
  rw [validate, check_bind_eq_ok_iff, mapError_eq_ok_iff, mapError_eq_ok_iff,
    Domain.validate_eq_ok_iff, FuzzySet.validateAll_eq_ok_iff_wellFormed]
  exact ⟨fun ⟨hd, hs⟩ ↦ ⟨hd, hs⟩, fun h ↦ ⟨h.domain, h.sets⟩⟩

namespace FuzzySystem

/-! ### Systems -/

/-- A rule that concludes on a label of the target from labels of the inputs. -/
structure WellFormedRule (s : FuzzySystem α) (rule : Rule α) : Prop where
  /-- The rule concludes on the target. -/
  target_eq : rule.target = s.target
  /-- The target has the concluded label. -/
  label : s.registry.HasLabel s.target rule.label
  /-- The weight is above zero and at most one. -/
  weight : 0 < rule.weight ∧ rule.weight ≤ 1
  /-- The antecedent has no empty combination and names labels only. -/
  antecedent : rule.antecedent.WellFormed s.registry
  /-- The antecedent reads inputs only. -/
  reads : ∀ a ∈ rule.antecedent.valuations, a.1 ∈ s.inputs

/-- A system in which everything that is referred to exists and everything that exists is sound. -/
structure WellFormed (s : FuzzySystem α) : Prop where
  /-- The inputs are registered. -/
  inputs : ∀ h ∈ s.inputs, ∃ v, s.registry.get h = .ok v
  /-- The target is registered. -/
  target : ∃ v, s.registry.get s.target = .ok v
  /-- The target is no input. -/
  target_not_mem : s.target ∉ s.inputs
  /-- The names of the variables are distinct. -/
  names : (s.registry.members.map (·.name)).Nodup
  /-- The variables are sound. -/
  members : ∀ v ∈ s.registry.members, v.WellFormed
  /-- The rules are sound. -/
  rules : ∀ rule ∈ s.rules.rules, s.WellFormedRule rule

/-- A rule suits a system and has an admissible weight exactly when it is well-formed there. -/
theorem suits_and_weight_iff {s : FuzzySystem α} {rule : Rule α} :
    (Suits s.registry s.inputs s.target rule ∧ 0 < rule.weight ∧ rule.weight ≤ 1) ↔
      s.WellFormedRule rule := by
  constructor
  · rintro ⟨⟨hvalid, htarget, hreads⟩, hweight⟩
    obtain ⟨hantecedent, hlabel⟩ := Rule.validate_eq_ok_iff.mp hvalid
    rw [htarget] at hlabel
    exact ⟨htarget, Proposition.validateLabel_eq_ok_iff_hasLabel.mp hlabel, hweight,
      Proposition.validate_eq_ok_iff.mp hantecedent, hreads⟩
  · intro h
    refine ⟨⟨Rule.validate_eq_ok_iff.mpr ⟨Proposition.validate_eq_ok_iff.mpr h.antecedent, ?_⟩,
      h.target_eq, h.reads⟩, h.weight⟩
    rw [h.target_eq]
    exact Proposition.validateLabel_eq_ok_iff_hasLabel.mpr h.label

/-- A rule can be built exactly when its weight is admissible. -/
theorem builtRules_iff {rules : RuleBase α} :
    BuiltRules rules ↔ ∀ rule ∈ rules.rules, 0 < rule.weight ∧ rule.weight ≤ 1 := by
  apply forall₂_congr
  intro rule _
  simp only [Rule.build_eq_ok_iff]
  constructor
  · rintro ⟨_, _, _, hweight, -, -, rfl⟩
    exact hweight
  · intro hweight
    exact ⟨rule.antecedent, rule.consequent, rule.weight, hweight, rfl, rfl, rfl⟩

section Obtained

variable [Scalar.OrderedFinite α]

/-- The variables of a registry are sound, whatever was added to it. -/
theorem wellFormed_of_mem {r : Registry α} : ∀ v ∈ r.members, v.WellFormed :=
  fun v hv ↦ Variable.validate_eq_ok_iff.mp (r.validate_eq_ok v hv)

/-- A system is well-formed exactly when its parts are accepted by the construction of rules and of
systems. -/
theorem wellFormed_iff_build {s : FuzzySystem α} :
    s.WellFormed ↔ BuiltRules s.rules ∧
      build s.registry s.inputs s.rules s.target =
        .ok ⟨s.registry, s.inputs, s.rules, s.target, {}⟩ := by
  rw [build_eq_ok_iff, builtRules_iff]
  constructor
  · intro h
    have hsuits : ∀ rule ∈ s.rules.rules, Suits s.registry s.inputs s.target rule ∧
        0 < rule.weight ∧ rule.weight ≤ 1 :=
      fun rule hrule ↦ suits_and_weight_iff.mpr (h.rules rule hrule)
    refine ⟨fun rule hrule ↦ (hsuits rule hrule).2, ?_, h.target_not_mem,
      fun rule hrule ↦ (hsuits rule hrule).1, rfl⟩
    intro k hk
    rcases List.mem_append.mp hk with hk | hk
    · exact h.inputs k hk
    · exact List.mem_singleton.mp hk ▸ h.target
  · rintro ⟨hweights, hregistered, htarget, hsuits, -⟩
    exact ⟨fun k hk ↦ hregistered k (List.mem_append_left _ hk), hregistered _ (by simp), htarget,
      s.registry.names_nodup, wellFormed_of_mem,
      fun rule hrule ↦ suits_and_weight_iff.mp ⟨hsuits rule hrule, hweights rule hrule⟩⟩

/-- Another context keeps a system well-formed. -/
theorem WellFormed.withContext {s : FuzzySystem α} (h : s.WellFormed) (ctx : Context) :
    (s.withContext ctx).WellFormed := by
  rw [wellFormed_iff_build] at h ⊢
  exact h

end Obtained

end FuzzySystem

end FuzzyInference
