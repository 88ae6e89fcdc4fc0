import FuzzyInference.Proofs.Proposition.Degree
import FuzzyInference.Proofs.Rule.Correspondence

/-!
# Outputs of rules

What a valid rule puts out, and what a base of valid rules does: a set if the variables that are
read are given values, and else the first missing one of them, in the order of the rules and from
left to right in each antecedent.
-/

namespace FuzzyInference

open Result Proposition

variable {α : Type} [Scalar α] {r : Registry α} {inputs : Assignment α} {ctx : Context}

/-- What a rule comes to. -/
theorem Rule.output_eq_ok_iff {rule : Rule α} {s : FuzzySet α} :
    rule.output r inputs ctx = .ok s ↔
      ∃ degree set, rule.antecedent.degree r inputs ctx = .ok degree ∧
        r.labelSet rule.target rule.label = .ok set ∧
          s = .scale (.implication ctx.implication degree set) rule.weight := by
  simp only [output, bind_eq_ok_iff, pure_eq_ok, Except.ok.injEq, eq_comm (b := s)]
  constructor
  · rintro ⟨d, hd, set, hs, heq⟩
    exact ⟨d, set, hd, hs, heq⟩
  · rintro ⟨d, set, hd, hs, heq⟩
    exact ⟨d, hd, set, hs, heq⟩

/-- What the rules of a base come to. -/
theorem RuleBase.output_eq_ok_iff {base : RuleBase α} {s : FuzzySet α} :
    base.output r inputs ctx = .ok s ↔
      ∃ sets, List.Forall₂ (fun rule set ↦ rule.output r inputs ctx = .ok set) base.rules sets ∧
        s = .or (some ctx.aggregation) sets := by
  simp only [output, bind_eq_ok_iff, pure_eq_ok, Except.ok.injEq, mapM_eq_ok_iff,
    eq_comm (b := s)]

/-- The valuations of all antecedents, in the order of the rules. -/
def RuleBase.valuations (base : RuleBase α) : List (Handle × String) :=
  base.rules.flatMap fun rule ↦ rule.antecedent.valuations

/-- A valid rule reads the valuations of its antecedent. -/
theorem Rule.output_readsInOrder {rule : Rule α} (hv : rule.validate r = .ok ()) :
    ReadsInOrder r inputs rule.antecedent.valuations (rule.output r inputs ctx) := by
  obtain ⟨ha, hl⟩ := Rule.validate_eq_ok_iff.mp hv
  obtain ⟨v, set, hr, hs⟩ := validateLabel_eq_ok_iff.mp hl
  rw [← Registry.labelSet_of_get hr] at hs
  have hd : ReadsInOrder r inputs rule.antecedent.valuations
      (rule.antecedent.degree r inputs ctx) := degree_readsInOrder ha
  simp only [Rule.output, hs, ok_bind, pure_eq_ok]
  exact hd.map fun d ↦ FuzzySet.scale (.implication ctx.implication d set) rule.weight

/-- Valid rules read the valuations of their antecedents, one rule after the other. -/
theorem RuleBase.output_readsInOrder {base : RuleBase α}
    (hv : ∀ rule ∈ base.rules, rule.validate r = .ok ()) :
    ReadsInOrder r inputs base.valuations (base.output r inputs ctx) := by
  have hsets : ReadsInOrder r inputs base.valuations
      (base.rules.mapM (Rule.output r inputs ctx)) :=
    ReadsInOrder.mapM fun rule hrule ↦ Rule.output_readsInOrder (hv rule hrule)
  exact hsets.map (FuzzySet.or (some ctx.aggregation))

/-- Valid rules have an aggregated output if the variables that they read are given values. -/
theorem RuleBase.exists_output {base : RuleBase α}
    (hv : ∀ rule ∈ base.rules, rule.validate r = .ok ())
    (hg : ∀ rule ∈ base.rules, Given r inputs rule.antecedent.valuations) :
    ∃ set, base.output r inputs ctx = .ok set := by
  apply (RuleBase.output_readsInOrder hv).succeeds
  intro a ha
  obtain ⟨rule, hrule, ha⟩ := List.mem_flatMap.mp ha
  exact hg rule hrule a ha

end FuzzyInference
