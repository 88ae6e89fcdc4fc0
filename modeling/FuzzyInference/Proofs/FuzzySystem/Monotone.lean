import FuzzyInference.Proofs.FuzzySet.Sampling
import FuzzyInference.Proofs.FuzzySystem.RuleOrder
import FuzzyInference.Proofs.Operator.Order

/-!
# Outputs that rise

What more rules, greater weights and weaker aggregations do to an output: they do not lower the
degree of any point. An output is aggregated from the degrees that its rules give to the point, so
this comes down to the order of the operators.
-/

namespace FuzzyInference

open Result Scalar

/-! ### Outputs that are compared -/

section

variable {α : Type} [Scalar α]

/-- In the labels of its own variable, every value that is given has degrees with a property. -/
def Registry.GivesValues (P : α → Prop) (r : Registry α) (inputs : Assignment α) (ctx : Context) :
    Prop :=
  ∀ v ∈ r.members, ∀ x, inputs.get v.name = .ok x → ∀ set ∈ v.labels.values, P (set.degree ctx x)

/-- All rules come to an output. -/
def RuleBase.Evaluates (r : Registry α) (inputs : Assignment α) (ctx : Context)
    (base : RuleBase α) : Prop :=
  ∀ rule ∈ base.rules, ∃ set, rule.output r inputs ctx = .ok set

/-- Two outputs exist, and the degree of the point in the first is at most that in the second. -/
def RisesAt (sampling : Context) (x : Point α) (first second : Except LookupFault (FuzzySet α)) :
    Prop :=
  ∃ set set', first = .ok set ∧ second = .ok set' ∧ set.degree sampling x ≤ set'.degree sampling x

variable {r : Registry α} {inputs : Assignment α} {ctx ctx' sampling : Context} {x : Point α}

/-- The degree in a union that names its operator. -/
theorem FuzzySet.degree_or_some (op : Disjunction) (sets : List (FuzzySet α)) :
    (FuzzySet.or (some op) sets).degree sampling x = op.combine (sets.map (degree sampling x)) := by
  rw [degree, degrees_eq_map, Option.getD_some]

/-! ### Contexts that aggregate differently -/

namespace Proposition

/-- Contexts with the same connectives give valuations the same degrees. -/
theorem valuation_eq_of_agree (hc : ctx.conjunction = ctx'.conjunction)
    (hd : ctx.disjunction = ctx'.disjunction) (h : Handle) (label : String) :
    valuation r inputs ctx h label = valuation r inputs ctx' h label := by
  have hset (set : FuzzySet α) (x : Point α) : set.degree ctx x = set.degree ctx' x :=
    FuzzySet.AgreeOn.degree_eq ⟨fun _ _ ↦ hd, fun _ _ ↦ hc⟩
  simp only [valuation, hset]

mutual

/-- Contexts with the same connectives give a proposition the same degree. -/
theorem degree_eq_of_agree (hc : ctx.conjunction = ctx'.conjunction)
    (hd : ctx.disjunction = ctx'.disjunction) : (p : Proposition) →
    p.degree r inputs ctx = p.degree r inputs ctx'
  | is h label => by rw [degree, degree, valuation_eq_of_agree hc hd]
  | isNot h label => by rw [degree, degree, valuation_eq_of_agree hc hd]
  | not p => by rw [degree, degree, degree_eq_of_agree hc hd p]
  | and ps => by rw [degree, degree, hc, degrees_eq_of_agree hc hd ps]
  | or ps => by rw [degree, degree, hd, degrees_eq_of_agree hc hd ps]

/-- So they do to several propositions. -/
theorem degrees_eq_of_agree (hc : ctx.conjunction = ctx'.conjunction)
    (hd : ctx.disjunction = ctx'.disjunction) : (ps : List Proposition) →
    degrees r inputs ctx ps = degrees r inputs ctx' ps
  | [] => rfl
  | p :: ps => by
    rw [degrees, degrees, degree_eq_of_agree hc hd p, degrees_eq_of_agree hc hd ps]

end

end Proposition

/-- A rule puts out the same, however its output is aggregated with others. -/
theorem Rule.output_aggregating (op : Disjunction) (rule : Rule α) :
    rule.output r inputs { ctx with aggregation := op } = rule.output r inputs ctx := by
  have hdegree : rule.antecedent.degree r inputs { ctx with aggregation := op } =
      rule.antecedent.degree r inputs ctx :=
    Proposition.degree_eq_of_agree (by rfl) (by rfl) _
  rw [output, output, hdegree]

end

/-! ### Rules that are built -/

namespace Rule

/-- The weight of a rule that can be built is a degree. -/
theorem isDegree_weight_of_build {antecedent consequent : Proposition} {w : Exact}
    {rule : Rule Exact} (h : build antecedent consequent w = .ok rule) : IsDegree rule.weight := by
  obtain ⟨⟨hpos, hle⟩, -, -, rfl⟩ := build_eq_ok_iff.mp h
  exact ⟨Exact.le_of_lt hpos, hle⟩

/-- The rule that is built from the parts of another one differs from it in the weight at most. -/
theorem eq_of_build {rule raised : Rule Exact} {w : Exact}
    (h : build rule.antecedent rule.consequent w = .ok raised) :
    raised = { rule with weight := w } := by
  obtain ⟨-, hantecedent, hconsequent, hweight⟩ := build_eq_ok_iff.mp h
  cases raised
  cases hantecedent
  cases hconsequent
  cases hweight
  rfl

end Rule

/-! ### Degrees that rules give -/

section Graded

variable {r : Registry Exact} {inputs : Assignment Exact} {ctx sampling : Context}
  {x : Point Exact} (hvalues : r.GivesValues IsDegree inputs ctx) (hx : r.Gives IsDegree sampling x)

include hvalues hx

/-- What a rule puts out is a set in which the point has a degree, scaled by the weight. With
another weight it is the same set, scaled by that one. -/
theorem Rule.exists_implied {rule : Rule Exact} {set : FuzzySet Exact}
    (ho : rule.output r inputs ctx = .ok set) :
    ∃ implied : FuzzySet Exact, IsDegree (implied.degree sampling x) ∧
      set = .scale implied rule.weight ∧
      ∀ w, { rule with weight := w }.output r inputs ctx = .ok (.scale implied w) := by
  obtain ⟨d, label, hd, hlabel, rfl⟩ := Rule.output_eq_ok_iff.mp ho
  have hdegree : IsDegree d := by
    refine Proposition.degree_kept_of_valuations Exact.kept_isDegree ?_ hd
    intro a _ e he
    obtain ⟨v, hv, he⟩ := bind_eq_ok_iff.mp he
    obtain ⟨set, hset, he⟩ := bind_eq_ok_iff.mp he
    obtain ⟨y, hy, he⟩ := bind_eq_ok_iff.mp he
    cases he
    exact hvalues v (Registry.mem_of_get hv) y hy set (Variable.mem_values_of_get hset)
  exact ⟨.implication ctx.implication d label,
    Exact.kept_isDegree.implication _ hdegree (hx.degree hlabel), rfl,
    fun w ↦ Rule.output_eq_ok_iff.mpr ⟨d, label, hd, hlabel, rfl⟩⟩

/-- Rules that come to outputs give the point degrees. -/
theorem RuleBase.Evaluates.exists_degrees {rules : List (Rule Exact)}
    (hrules : RuleBase.Evaluates r inputs ctx ⟨rules⟩)
    (hweights : ∀ rule ∈ rules, IsDegree rule.weight) :
    ∃ sets : List (FuzzySet Exact),
      List.Forall₂ (fun rule set ↦ rule.output r inputs ctx = .ok set) rules sets ∧
        ∀ d ∈ sets.map (FuzzySet.degree sampling x), IsDegree d := by
  obtain ⟨sets, hsets⟩ := exists_forall₂ hrules
  refine ⟨sets, hsets, List.forall_mem_map.mpr fun set hset ↦ ?_⟩
  obtain ⟨rule, hrule, ho⟩ := exists_left_of_mem hsets hset
  obtain ⟨implied, hdegree, rfl, -⟩ := Rule.exists_implied hvalues hx ho
  exact Exact.kept_isDegree.scale (hweights rule hrule) hdegree

namespace RuleBase

/-- A further rule does not lower the degree of the point. -/
theorem risesAt_push {base : RuleBase Exact} {rule : Rule Exact}
    (hrules : (base.push rule).Evaluates r inputs ctx)
    (hweights : ∀ rule' ∈ (base.push rule).rules, IsDegree rule'.weight) :
    RisesAt sampling x (base.output r inputs ctx) ((base.push rule).output r inputs ctx) := by
  rw [push, List.forall_mem_append, List.forall_mem_singleton] at hweights
  obtain ⟨hrules, ho⟩ := List.forall_mem_append.mp hrules
  obtain ⟨set, ho⟩ := ho rule (List.mem_singleton_self rule)
  obtain ⟨sets, hsets, hdegrees⟩ := Evaluates.exists_degrees hvalues hx hrules hweights.1
  obtain ⟨implied, hdegree, rfl, -⟩ := Rule.exists_implied hvalues hx ho
  refine ⟨_, _, output_eq_ok_iff.mpr ⟨sets, hsets, rfl⟩,
    output_eq_ok_iff.mpr ⟨_, List.rel_append hsets (.cons ho .nil), rfl⟩, ?_⟩
  rw [FuzzySet.degree_or_some, FuzzySet.degree_or_some, List.map_append, List.map_singleton]
  exact Disjunction.combine_le_concat _ hdegrees (Exact.kept_isDegree.scale hweights.2 hdegree)

/-- A greater weight of a rule does not lower the degree of the point. -/
theorem risesAt_weight {before after : List (Rule Exact)} {rule : Rule Exact} {w : Exact}
    (hrules : RuleBase.Evaluates r inputs ctx ⟨before ++ rule :: after⟩)
    (hweights : ∀ rule' ∈ before ++ rule :: after, IsDegree rule'.weight) (hw : IsDegree w)
    (hle : rule.weight ≤ w) :
    RisesAt sampling x ((RuleBase.mk (before ++ rule :: after)).output r inputs ctx)
      ((RuleBase.mk (before ++ { rule with weight := w } :: after)).output r inputs ctx) := by
  rw [List.forall_mem_append, List.forall_mem_cons] at hweights
  obtain ⟨hbefore, hrules⟩ := List.forall_mem_append.mp hrules
  obtain ⟨⟨set, ho⟩, hafter⟩ := List.forall_mem_cons.mp hrules
  obtain ⟨sets, hsets, hds⟩ := Evaluates.exists_degrees hvalues hx hbefore hweights.1
  obtain ⟨sets', hsets', hds'⟩ := Evaluates.exists_degrees hvalues hx hafter hweights.2.2
  obtain ⟨implied, hdegree, rfl, hraised⟩ := Rule.exists_implied hvalues hx ho
  refine ⟨_, _, output_eq_ok_iff.mpr ⟨_, List.rel_append hsets (.cons ho hsets'), rfl⟩,
    output_eq_ok_iff.mpr ⟨_, List.rel_append hsets (.cons (hraised w) hsets'), rfl⟩, ?_⟩
  rw [FuzzySet.degree_or_some, FuzzySet.degree_or_some, List.map_append, List.map_append,
    List.map_cons, List.map_cons]
  refine Disjunction.combine_replace_le _ hds hds'
    (Exact.kept_isDegree.scale hweights.2.1 hdegree) (Exact.kept_isDegree.scale hw hdegree) ?_
  -- Scaling a degree is what the implication by products does.
  exact Implication.product.apply_le_apply hweights.2.1 hw hdegree hdegree hle
    (Exact.le_self_of_isDegree hdegree)

/-- A disjunction that makes more of all degrees does not lower the degree of the point if the
outputs are aggregated by it. -/
theorem risesAt_aggregation {base : RuleBase Exact} (hrules : base.Evaluates r inputs ctx)
    (hweights : ∀ rule ∈ base.rules, IsDegree rule.weight) {op op' : Disjunction}
    (hop : ∀ ds : List Exact, (∀ d ∈ ds, IsDegree d) → op.combine ds ≤ op'.combine ds) :
    RisesAt sampling x (base.output r inputs { ctx with aggregation := op })
      (base.output r inputs { ctx with aggregation := op' }) := by
  obtain ⟨sets, hsets, hdegrees⟩ := Evaluates.exists_degrees hvalues hx hrules hweights
  have hsame (op : Disjunction) : List.Forall₂
      (fun rule set ↦ rule.output r inputs { ctx with aggregation := op } = .ok set)
      base.rules sets :=
    hsets.imp fun rule set ho ↦ by rwa [Rule.output_aggregating]
  refine ⟨_, _, output_eq_ok_iff.mpr ⟨sets, hsame op, rfl⟩,
    output_eq_ok_iff.mpr ⟨sets, hsame op', rfl⟩, ?_⟩
  rw [FuzzySet.degree_or_some, FuzzySet.degree_or_some]
  exact hop _ hdegrees

end RuleBase

end Graded

namespace FuzzySystem

/-! ### Main results -/

/-- The operators are monotone in every degree. Of the same degrees, if there is one, the
Łukasiewicz conjunction makes no more than the product, the product no more than the minimum, the
minimum no more than the maximum, the maximum no more than the probabilistic sum, and that no more
than the bounded sum.

In a system whose labels give degrees to a point and to the values of their variables, a further
rule or a greater weight therefore does not lower the degree of the point in the output. Neither
does aggregating by the probabilistic sum in place of the maximum, or by the bounded sum in place of
that. -/
theorem outputs_rise :
    ((∀ op : Conjunction, MonotoneOnDegrees op.combine) ∧
      (∀ op : Disjunction, MonotoneOnDegrees op.combine) ∧
      ∀ (op : Implication) (d e m n : Exact), IsDegree d → IsDegree e → IsDegree m → IsDegree n →
        d ≤ e → m ≤ n → op.apply d m ≤ op.apply e n) ∧
    (∀ ds : List Exact, ds ≠ [] → (∀ d ∈ ds, IsDegree d) →
      Conjunction.lukasiewicz.combine ds ≤ Conjunction.product.combine ds ∧
      Conjunction.product.combine ds ≤ Conjunction.minimum.combine ds ∧
      Conjunction.minimum.combine ds ≤ Disjunction.maximum.combine ds ∧
      Disjunction.maximum.combine ds ≤ Disjunction.probabilisticSum.combine ds ∧
      Disjunction.probabilisticSum.combine ds ≤ Disjunction.boundedSum.combine ds) ∧
    ∀ s : FuzzySystem Exact, s.Obtained →
      ∀ (inputs : Assignment Exact) (ctx sampling : Context) (x : Point Exact),
      s.registry.GivesValues IsDegree inputs ctx → s.registry.Gives IsDegree sampling x →
      s.rules.Evaluates s.registry inputs ctx →
      (∀ antecedent consequent weight rule,
        Rule.build antecedent consequent weight = .ok rule →
        (s.rules.push rule).Evaluates s.registry inputs ctx →
        RisesAt sampling x (s.output inputs ctx)
          ((s.withRules (s.rules.push rule).rules).output inputs ctx)) ∧
      (∀ before rule after weight raised, s.rules.rules = before ++ rule :: after →
        Rule.build rule.antecedent rule.consequent weight = .ok raised → rule.weight ≤ weight →
        RisesAt sampling x (s.output inputs ctx)
          ((s.withRules (before ++ raised :: after)).output inputs ctx)) ∧
      RisesAt sampling x (s.output inputs { ctx with aggregation := .maximum })
        (s.output inputs { ctx with aggregation := .probabilisticSum }) ∧
      RisesAt sampling x (s.output inputs { ctx with aggregation := .probabilisticSum })
        (s.output inputs { ctx with aggregation := .boundedSum }) := by
  refine ⟨⟨fun op ↦ op.monotoneOnDegrees, fun op ↦ op.monotoneOnDegrees,
    fun op _ _ _ _ hd he hm hn ↦ op.apply_le_apply hd he hm hn⟩, ?_, ?_⟩
  · intro ds hne h
    exact ⟨Conjunction.lukasiewicz_le_product h, Conjunction.product_le_minimum h,
      minimum_le_maximum h hne, Disjunction.maximum_le_probabilisticSum h,
      Disjunction.probabilisticSum_le_boundedSum h⟩
  intro s hs inputs ctx sampling x hvalues hx hrules
  have hweights : ∀ rule ∈ s.rules.rules, IsDegree rule.weight :=
    fun rule hrule ↦ (hs.wellFormed.rules rule hrule).isDegree_weight
  refine ⟨?_, ?_, ?_, ?_⟩
  · intro antecedent consequent weight rule hbuild hpush
    refine RuleBase.risesAt_push hvalues hx hpush ?_
    exact List.forall_mem_append.mpr
      ⟨hweights, List.forall_mem_singleton.mpr (Rule.isDegree_weight_of_build hbuild)⟩
  · intro before rule after weight raised hsplit hbuild hle
    have hw := Rule.isDegree_weight_of_build hbuild
    obtain rfl := Rule.eq_of_build hbuild
    have hbase : s.rules = ⟨before ++ rule :: after⟩ := congrArg RuleBase.mk hsplit
    rw [hbase] at hrules hweights
    show RisesAt sampling x (s.rules.output s.registry inputs ctx) _
    rw [hbase]
    exact RuleBase.risesAt_weight hvalues hx hrules hweights hw hle
  · exact RuleBase.risesAt_aggregation hvalues hx hrules hweights
      fun _ ↦ Disjunction.maximum_le_probabilisticSum
  · exact RuleBase.risesAt_aggregation hvalues hx hrules hweights
      fun _ ↦ Disjunction.probabilisticSum_le_boundedSum

/-- Soil is watered no less by a further rule, by the same rule with its full weight, or by another
aggregation. -/
theorem irrigation_outputs_rise :
    irrigation.Obtained ∧
      irrigation.registry.GivesValues IsDegree (moist 40) {} ∧
      irrigation.registry.Gives IsDegree {} (.number (.number 7)) ∧
      (irrigation.rules.push thorough).Evaluates irrigation.registry (moist 40) {} ∧
      RisesAt {} (.number (.number 7)) (irrigation.output (moist 40) {})
        ((irrigation.withRules (irrigation.rules.push thorough).rules).output (moist 40) {}) ∧
      (∃ rule raised, irrigation.rules.rules = [rule] ∧
        Rule.build rule.antecedent rule.consequent (1 : Exact) = .ok raised ∧
        RisesAt {} (.number (.number 7)) (irrigation.output (moist 40) {})
          ((irrigation.withRules [raised]).output (moist 40) {})) ∧
      RisesAt {} (.number (.number 7)) (irrigation.output (moist 40) { aggregation := .maximum })
        (irrigation.output (moist 40) { aggregation := .probabilisticSum }) := by
  have hw := obtained_irrigation.wellFormed
  have hvalues : irrigation.registry.GivesValues IsDegree (moist 40) {} := fun v hv y hy ↦
    hw.gives_isDegree_of_get irrigation_graded (isFinite_moist 40) v.name y hy v hv
  have hx : irrigation.registry.Gives IsDegree {} (.number (.number 7)) :=
    hw.gives_isDegree irrigation_graded (by rintro y ⟨⟩; rfl)
  have hpush : (irrigation.rules.push thorough).Evaluates irrigation.registry (moist 40) {} :=
    List.forall_mem_cons.mpr ⟨⟨_, rfl⟩, List.forall_mem_singleton.mpr ⟨_, rfl⟩⟩
  have hfull : (0 : Exact) < 1 ∧ (1 : Exact) ≤ 1 := by simp
  obtain ⟨-, -, hsystem⟩ := outputs_rise
  obtain ⟨hmore, hraised, hmaximum, -⟩ := hsystem irrigation obtained_irrigation (moist 40) {} {}
    (.number (.number 7)) hvalues hx fun rule hrule ↦ hpush rule (List.mem_append_left _ hrule)
  refine ⟨obtained_irrigation, hvalues, hx, hpush, ?_, ?_, hmaximum⟩
  · exact hmore _ _ _ _ (Rule.build_eq_ok_iff.mpr ⟨hfull, rfl, rfl, rfl⟩) hpush
  · obtain ⟨rule, hrule⟩ : ∃ rule, irrigation.rules.rules = [rule] := ⟨_, rfl⟩
    have hmem : rule ∈ irrigation.rules.rules := by simp [hrule]
    have hbuild : Rule.build rule.antecedent rule.consequent (1 : Exact) =
        .ok { rule with weight := 1 } := Rule.build_eq_ok_iff.mpr ⟨hfull, rfl, rfl, rfl⟩
    exact ⟨rule, _, hrule, hbuild,
      hraised [] rule [] 1 _ hrule hbuild (hw.rules rule hmem).isDegree_weight.2⟩

end FuzzySystem

end FuzzyInference
