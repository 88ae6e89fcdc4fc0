import FuzzyInference.Proofs.Domain
import FuzzyInference.Proofs.FuzzySet.Sampling
import FuzzyInference.Proofs.FuzzySystem.Degree
import FuzzyInference.Proofs.Scalar.Order

/-!
# The formula for outputs

The degree of a point in the output of a system, computed without any output set: each rule weights
what the degree of its condition implies for the point, and these degrees are aggregated in the
order of the rules. The formula has two contexts, as outputs have: the one that they are built
under, which settles the conditions, the implication and the aggregation, and the one that they are
sampled in.
-/

namespace FuzzyInference

open Result

instance : Scalar.NeutralDegrees Float where
  one_sub_one := by decide +kernel
  min_one_zero := by decide +kernel

section

variable {α : Type} [Scalar α]

/-- The degree that a rule gives to a point: what the degree of its condition implies for the point
in the concluded set, weighted. -/
def Rule.impliedDegree (r : Registry α) (inputs : Assignment α) (built sampled : Context)
    (x : Point α) (rule : Rule α) : Except LookupFault α := do
  let degree ← rule.antecedent.degree r inputs built
  let set ← r.labelSet rule.target rule.label
  return rule.weight * built.implication.apply degree (set.degree sampled x)

/-- The degrees that rules give to a point, aggregated in their order. -/
def RuleBase.impliedDegree (r : Registry α) (inputs : Assignment α) (built sampled : Context)
    (x : Point α) (base : RuleBase α) : Except LookupFault α :=
  return built.aggregation.combine (← base.rules.mapM (Rule.impliedDegree r inputs built sampled x))

variable {r : Registry α} {inputs : Assignment α} {built sampled sampled' : Context} {x : Point α}

/-- The degree that a rule gives to a point is that in its output. -/
theorem Rule.impliedDegree_of_output {rule : Rule α} {set : FuzzySet α}
    (h : rule.output r inputs built = .ok set) :
    rule.impliedDegree r inputs built sampled x = .ok (set.degree sampled x) := by
  obtain ⟨degree, label, hdegree, hlabel, rfl⟩ := Rule.output_eq_ok_iff.mp h
  simp only [impliedDegree, hdegree, hlabel, ok_bind, pure_eq_ok, FuzzySet.degree]

/-- The degree that rules give to a point is that in their aggregated output. -/
theorem RuleBase.impliedDegree_of_output {base : RuleBase α} {set : FuzzySet α}
    (h : base.output r inputs built = .ok set) :
    base.impliedDegree r inputs built sampled x = .ok (set.degree sampled x) := by
  obtain ⟨sets, hsets, rfl⟩ := RuleBase.output_eq_ok_iff.mp h
  have hdegrees : base.rules.mapM (Rule.impliedDegree r inputs built sampled x) =
      .ok (FuzzySet.degrees sampled x sets) := by
    rw [mapM_eq_ok_iff, FuzzySet.degrees_eq_map, List.forall₂_map_right_iff]
    exact hsets.imp fun _ _ ↦ Rule.impliedDegree_of_output
  rw [impliedDegree, hdegrees, ok_bind, pure_eq_ok, FuzzySet.degree, Option.getD_some]

/-- Contexts that agree on the concluded sets give the same degrees in the aggregated output. -/
theorem RuleBase.degree_eq_of_agreeOn {base : RuleBase α} {set : FuzzySet α}
    (h : base.output r inputs built = .ok set)
    (hagree : ∀ rule ∈ base.rules, ∀ label, r.labelSet rule.target rule.label = .ok label →
      label.AgreeOn sampled sampled') :
    set.degree sampled x = set.degree sampled' x := by
  obtain ⟨sets, hsets, rfl⟩ := RuleBase.output_eq_ok_iff.mp h
  rw [FuzzySet.degree, FuzzySet.degree, FuzzySet.degrees_eq_map, FuzzySet.degrees_eq_map]
  congr 1
  apply List.map_congr_left
  intro output houtput
  obtain ⟨rule, hrule, hset⟩ := exists_left_of_mem hsets houtput
  obtain ⟨degree, label, -, hlabel, rfl⟩ := Rule.output_eq_ok_iff.mp hset
  simp only [FuzzySet.degree, (hagree rule hrule label hlabel).degree_eq]

/-- Rules that there are none of put out a set without any degree. -/
theorem RuleBase.degree_eq_zero_of_empty [Scalar.NeutralDegrees α] {base : RuleBase α}
    (hempty : base.rules = []) {set : FuzzySet α} (h : base.output r inputs built = .ok set) :
    set.degree sampled x = 0 := by
  rw [output, hempty] at h
  cases h
  exact Disjunction.combine_nil built.aggregation

namespace FuzzySystem

/-- The degree that the rules of a system give to a point, computed without an output. -/
def impliedDegree (s : FuzzySystem α) (inputs : Assignment α) (built sampled : Context)
    (x : Point α) : Except LookupFault α :=
  s.rules.impliedDegree s.registry inputs built sampled x

/-- The crisp output is what the implied degrees of the points are reduced to. -/
theorem crisp_eq_reduce {s : FuzzySystem α} {set : FuzzySet α}
    (h : s.output inputs built = .ok set) {f : Point α → α}
    (hf : ∀ x, s.impliedDegree inputs built built x = .ok (f x)) :
    s.crisp inputs built = (do
      let v ← s.targetVariable.mapError Fault.lookup
      (v.domain.reduce f built.defuzzification).mapError Fault.domain) := by
  have hdegree : (fun x ↦ set.degree built x) = f := by
    funext x
    exact Except.ok.inj ((RuleBase.impliedDegree_of_output h).symm.trans (hf x))
  rw [crisp, h, mapError_ok, ok_bind]
  simp only [Domain.defuzzify_eq_reduce, hdegree]

/-! ### Main results -/

/-- In an output that was built under one context, a point has under any other one the degree that
the formula gives it. The other context matters only for what the concluded sets leave open, and the
system's own context not at all. The crisp output is what the formula, with the one context in both
places, is reduced to on the target's domain. Without rules all degrees are zero. -/
theorem output_eq_impliedDegree [Scalar.NeutralDegrees α] {s : FuzzySystem α}
    {set : FuzzySet α} (h : s.output inputs built = .ok set) :
    (∀ sampled x, s.impliedDegree inputs built sampled x = .ok (set.degree sampled x)) ∧
    (∀ sampled sampled', (∀ rule ∈ s.rules.rules, ∀ label,
        s.registry.labelSet rule.target rule.label = .ok label → label.AgreeOn sampled sampled') →
      ∀ x, set.degree sampled x = set.degree sampled' x) ∧
    (∀ ctx, (s.withContext ctx).output inputs built = .ok set ∧
      (s.withContext ctx).crisp inputs built = s.crisp inputs built) ∧
    (∀ f : Point α → α, (∀ x, s.impliedDegree inputs built built x = .ok (f x)) →
      s.crisp inputs built = (do
        let v ← s.targetVariable.mapError Fault.lookup
        (v.domain.reduce f built.defuzzification).mapError Fault.domain)) ∧
    (s.rules.rules = [] → ∀ sampled x, set.degree sampled x = 0) :=
  ⟨fun _ _ ↦ RuleBase.impliedDegree_of_output h,
    fun _ _ hagree _ ↦ RuleBase.degree_eq_of_agreeOn h hagree,
    fun _ ↦ ⟨h, rfl⟩,
    fun _ hf ↦ crisp_eq_reduce h hf,
    fun hempty _ _ ↦ RuleBase.degree_eq_zero_of_empty hempty h⟩

end FuzzySystem

end

namespace FuzzySystem

/-- A quantity between zero and one, with a label that stands for a set. -/
private def fraction (name label : String) (set : FuzzySet Float) : Variable Float where
  name := name
  domain := .numeric ⟨name, 0, 1, .count 3⟩
  labels := ⟨[(label, set)], List.nodup_singleton _⟩

/-- Blinds that are lowered for bright light, with two views of what is low. -/
def shading : FuzzySystem Float where
  registry := .ofMembers [fraction "light" "bright" (.constant 1),
    fraction "blinds" "low" (.or none [.constant 0.25, .constant 0.5])] (by decide) <| by
      simp only [List.forall_mem_cons, List.not_mem_nil, false_implies, implies_true, and_true]
      exact ⟨rfl, rfl⟩
  inputs := [⟨0⟩]
  rules := ⟨[⟨.is ⟨0⟩ "bright", ⟨1⟩, "low", 1⟩]⟩
  target := ⟨1⟩
  context := {}

/-- The views of what is low are put together by the context in which the output is sampled, not by
the one under which it was built. -/
theorem shading_eq_impliedDegree :
    ∃ set, shading.output (.ofList [("light", .number 1)]) {} = .ok set ∧
      set.degree {} (.number 0) = 0.5 ∧
      set.degree { disjunction := .boundedSum } (.number 0) = 0.75 ∧
      ∀ sampled x, shading.impliedDegree (.ofList [("light", .number 1)]) {} sampled x =
        .ok (set.degree sampled x) := by
  refine ⟨.or (some .maximum) [.scale (.implication .minimum 1
    (.or none [.constant 0.25, .constant 0.5])) 1], by rfl, by decide +kernel,
    by decide +kernel, ?_⟩
  exact (output_eq_impliedDegree (by rfl)).1

end FuzzySystem

end FuzzyInference
