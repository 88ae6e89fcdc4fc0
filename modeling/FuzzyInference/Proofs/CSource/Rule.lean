import FuzzyInference.Proofs.CSource.Proposition
import FuzzyInference.Proofs.Operator.Combine
import FuzzyInference.Proofs.Rule.Output

/-!
# The meaning of written rules

The expression for rules means the degree of the target in their aggregated output, computed from
the antecedents as they are written. It is the output itself if the antecedents are balanced.
-/

namespace FuzzyInference

open Result

section

variable {α : Type} [Scalar α]

/-- The set that a rule puts out if its antecedent holds to the degree that is written. -/
def Rule.writtenOutput (r : Registry α) (inputs : Assignment α) (ctx : Context) (rule : Rule α) :
    Except LookupFault (FuzzySet α) := do
  let degree ← rule.antecedent.writtenDegree r inputs ctx
  let set ← r.labelSet rule.target rule.label
  return .scale (.implication ctx.implication degree set) rule.weight

/-- The aggregated output of rules whose antecedents hold to the degrees that are written. -/
def RuleBase.writtenOutput (r : Registry α) (inputs : Assignment α) (ctx : Context)
    (base : RuleBase α) : Except LookupFault (FuzzySet α) :=
  return .or (some ctx.aggregation) (← base.rules.mapM (Rule.writtenOutput r inputs ctx))

end

/-- Rules with balanced antecedents put out as they are written what they put out. -/
theorem RuleBase.writtenOutput_eq {r : Registry Exact} {inputs : Assignment Exact} {ctx : Context}
    {base : RuleBase Exact} (h : ∀ rule ∈ base.rules, rule.antecedent.Balanced r inputs ctx) :
    base.writtenOutput r inputs ctx = base.output r inputs ctx := by
  have hrules : base.rules.mapM (Rule.writtenOutput r inputs ctx) =
      base.rules.mapM (Rule.output r inputs ctx) := by
    apply mapM_eq_of_forall₂
    rw [List.forall₂_same]
    intro rule hrule
    rw [Rule.writtenOutput, Rule.output, Proposition.writtenDegree_eq (h rule hrule)]
  rw [RuleBase.writtenOutput, RuleBase.output, hrules]

namespace CSource

open Expression

variable {functions : Functions Exact} {env : Environment Exact} {r : Registry Exact}
  {inputs : Assignment Exact} {ctx : Context} {x : ℝ}

private theorem weighted_means {weight d : Exact} {e : Expression Exact}
    (h : Means functions env 2 e d) :
    Means functions env 2
      (if weight == 1 then e else literal weight ++ .times :: grouped e) (weight * d) := by
  by_cases hw : (weight == 1) = true
  · have hone : weight = .number 1 := Exact.eq_of_beq_number (by simpa using hw)
    rw [if_pos hw, hone, Exact.one_mul]
    exact h
  · rw [if_neg hw]
    exact ((Means.number weight).of_le (by decide)).times ((h.group (by decide)).of_le (by decide))

/-- The expression for a valid rule means the degree of the target in the set that the rule puts out
as it is written. -/
theorem rule_means (hk : KnowsPrelude functions) (hu : Unshadowed env) {rule : Rule Exact}
    {v : Variable Exact} (hv : rule.validate r = .ok ())
    (hg : GivenNumbers r inputs env rule.antecedent.valuations)
    (ht : r.get rule.target = .ok v) (hx : env v.name = some (.floating (.number x)))
    {e : Expression Exact} (he : CSource.rule r ctx v.name rule = .ok e) :
    ∃ set, rule.writtenOutput r inputs ctx = .ok set ∧
      Means functions env 2 e (set.degree ctx (.number (.number x))) := by
  obtain ⟨degree, hd, he⟩ := bind_eq_ok_iff.mp he
  obtain ⟨set, hs, he⟩ := bind_eq_ok_iff.mp he
  obtain ⟨conclusion, hc, he⟩ := bind_eq_ok_iff.mp he
  have hs := mapError_eq_ok_iff.mp hs
  obtain ⟨d, hwritten, hst⟩ :=
    proposition_stands hk hu (Rule.validate_eq_ok_iff.mp hv).1 hg hd
  have hvalid : set.validate = .ok () := by
    rw [Registry.labelSet_of_get ht] at hs
    exact Variable.validate_of_get (r.validate_eq_ok v (Registry.mem_of_get ht)) hs
  have hset := set_means hk hu hx hvalid hc
  refine ⟨.scale (.implication ctx.implication d set) rule.weight, ?_, ?_⟩
  · simp only [Rule.writtenOutput, hwritten, hs, ok_bind, pure_eq_ok]
  · cases he
    rw [FuzzySet.degree]
    apply weighted_means
    rw [FuzzySet.degree]
    cases ctx.implication with
    | minimum =>
      exact (Means.call (hu _ (by simp)) (by simp) (.cons (hst.means.passes (by decide))
        (.cons (hset.passes (by decide)) .nil)) (hk.fmin _ _)).of_le (by decide)
    | product =>
      exact ((hst.means.group (by decide)).of_le (by decide)).times
        ((hset.group (by decide)).of_le (by decide))

private theorem rules_mean (hk : KnowsPrelude functions) (hu : Unshadowed env)
    {rules : List (Rule Exact)} {v : Variable Exact}
    (hv : ∀ rule ∈ rules, rule.validate r = .ok ())
    (hg : ∀ rule ∈ rules, GivenNumbers r inputs env rule.antecedent.valuations)
    (ht : ∀ rule ∈ rules, r.get rule.target = .ok v)
    (hx : env v.name = some (.floating (.number x))) {es : List (Expression Exact)}
    (he : List.Forall₂ (fun rule e ↦ CSource.rule r ctx v.name rule = .ok e) rules es) :
    ∃ sets, rules.mapM (Rule.writtenOutput r inputs ctx) = .ok sets ∧
      List.Forall₂ (Means functions env 2) es
        (FuzzySet.degrees ctx (.number (.number x)) sets) := by
  induction he with
  | nil => exact ⟨[], rfl, .nil⟩
  | cons he _ ih =>
    rw [List.forall_mem_cons] at hv hg ht
    obtain ⟨set, hset, hm⟩ := rule_means hk hu hv.1 hg.1 ht.1 hx he
    obtain ⟨sets, hsets, hms⟩ := ih hv.2 hg.2 ht.2
    refine ⟨set :: sets, ?_, .cons hm hms⟩
    rw [List.mapM_cons, hset, hsets]
    rfl

/-- The expression for rules means the degree of the target in their aggregated output as it is
written. -/
theorem output_means (hk : KnowsPrelude functions) (hu : Unshadowed env)
    {base : RuleBase Exact} {v : Variable Exact}
    (hv : ∀ rule ∈ base.rules, rule.validate r = .ok ())
    (hg : ∀ rule ∈ base.rules, GivenNumbers r inputs env rule.antecedent.valuations)
    (ht : ∀ rule ∈ base.rules, r.get rule.target = .ok v)
    (hx : env v.name = some (.floating (.number x))) {e : Expression Exact}
    (he : output r ctx v.name base.rules = .ok e) :
    ∃ set, base.writtenOutput r inputs ctx = .ok set ∧
      Means functions env 3 e (set.degree ctx (.number (.number x))) := by
  obtain ⟨es, hes, he⟩ := bind_eq_ok_iff.mp he
  obtain ⟨sets, hsets, hms⟩ := rules_mean hk hu hv hg ht hx (mapM_eq_ok_iff.mp hes)
  refine ⟨.or (some ctx.aggregation) sets, by simp only [RuleBase.writtenOutput, hsets, ok_bind,
    pure_eq_ok], ?_⟩
  rw [FuzzySet.degree, Option.getD_some]
  cases he
  generalize FuzzySet.degrees ctx (.number (.number x)) sets = ds at hms
  cases hms with
  | nil =>
    rw [Disjunction.combine_nil]
    exact (Means.number 0).of_le (by decide)
  | cons hm hms => exact disjunction_means hk hu _ (Nat.le_refl 2) (.cons hm hms) (by simp)

end CSource

end FuzzyInference
