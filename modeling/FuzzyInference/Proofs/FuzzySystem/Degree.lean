import FuzzyInference.Proofs.FuzzySet.Degree
import FuzzyInference.Proofs.FuzzySystem.Lookup

/-!
# Degrees in systems

What the degrees in the labels of a system have and no operator loses, the degrees of all
propositions and the degrees in all outputs have. In exact arithmetic these are in the unit interval
if the sets behind the labels list degrees only.
-/

namespace FuzzyInference

open Result Scalar Proposition

variable {α : Type} [Scalar α] {P : α → Prop} {r : Registry α} {inputs : Assignment α}
  {ctx sampling : Context} {x : Point α}

/-- The values of an assignment are numbers proper or labels. -/
def Assignment.IsFinite (a : Assignment α) : Prop := ∀ name x, a.get name = .ok x → x.IsFinite

/-- The degrees of a point in the labels of a registry have a property. -/
def Registry.Gives (P : α → Prop) (r : Registry α) (ctx : Context) (x : Point α) : Prop :=
  ∀ v ∈ r.members, ∀ set ∈ v.labels.values, P (set.degree ctx x)

/-- What a label of a registered variable stands for gives a degree with the property. -/
theorem Registry.Gives.degree {h : Handle} {label : String} {set : FuzzySet α}
    (hr : r.Gives P ctx x) (hset : r.labelSet h label = .ok set) : P (set.degree ctx x) := by
  obtain ⟨v, hv, hset⟩ := bind_eq_ok_iff.mp hset
  exact hr v (Registry.mem_of_get hv) set (Variable.mem_values_of_get hset)

namespace Proposition

/-- A valuation has the property that the degrees of all values have. -/
theorem valuation_kept (hr : ∀ name x, inputs.get name = .ok x → r.Gives P ctx x) {h : Handle}
    {label : String} {d : α} (hd : valuation r inputs ctx h label = .ok d) : P d := by
  obtain ⟨v, hv, hd⟩ := bind_eq_ok_iff.mp hd
  obtain ⟨set, hset, hd⟩ := bind_eq_ok_iff.mp hd
  obtain ⟨x, hx, hd⟩ := bind_eq_ok_iff.mp hd
  cases hd
  rw [← Registry.labelSet_of_get hv] at hset
  exact (hr v.name x hx).degree hset

/-- The degrees of valuations, as far as they have one, have a property. -/
def ValuationsHave (P : α → Prop) (r : Registry α) (inputs : Assignment α) (ctx : Context)
    (read : List (Handle × String)) : Prop :=
  ∀ a ∈ read, ∀ d, valuation r inputs ctx a.1 a.2 = .ok d → P d

mutual

/-- The degree of a proposition has a property that those of its valuations have and no operator
loses. -/
theorem degree_kept_of_valuations (hP : Kept P) : {p : Proposition} → {d : α} →
    ValuationsHave P r inputs ctx p.valuations → p.degree r inputs ctx = .ok d → P d
  | is _ _, _, hv, h => hv _ (List.mem_singleton_self _) _ h
  | isNot _ _, _, hv, h => by
    obtain ⟨d, hd, h⟩ := bind_eq_ok_iff.mp h
    cases h
    exact hP.complement (hv _ (List.mem_singleton_self _) d hd)
  | not p, _, hv, h => by
    obtain ⟨d, hd, h⟩ := bind_eq_ok_iff.mp h
    cases h
    exact hP.complement (degree_kept_of_valuations hP (p := p) hv hd)
  | and ps, _, hv, h => by
    obtain ⟨ds, hds, h⟩ := bind_eq_ok_iff.mp h
    cases h
    exact hP.conjunction _ (degrees_kept_of_valuations hP hv hds)
  | or ps, _, hv, h => by
    obtain ⟨ds, hds, h⟩ := bind_eq_ok_iff.mp h
    cases h
    exact hP.disjunction _ (degrees_kept_of_valuations hP hv hds)

/-- The degrees of several propositions have the property. -/
theorem degrees_kept_of_valuations (hP : Kept P) : {ps : List Proposition} → {ds : List α} →
    ValuationsHave P r inputs ctx (valuationsAll ps) → degrees r inputs ctx ps = .ok ds →
      ∀ d ∈ ds, P d
  | [], _, _, h => by
    cases h
    exact nofun
  | p :: ps, _, hv, h => by
    obtain ⟨d, hd, h⟩ := bind_eq_ok_iff.mp h
    obtain ⟨ds, hds, h⟩ := bind_eq_ok_iff.mp h
    cases h
    rw [List.forall_mem_cons]
    exact ⟨degree_kept_of_valuations hP (fun a ha ↦ hv a (List.mem_append_left _ ha)) hd,
      degrees_kept_of_valuations hP (fun a ha ↦ hv a (List.mem_append_right _ ha)) hds⟩

end

/-- The degree of a proposition has the property that the degrees of all values have and no operator
loses. -/
theorem degree_kept (hP : Kept P) (hr : ∀ name x, inputs.get name = .ok x → r.Gives P ctx x)
    {p : Proposition} {d : α} (h : p.degree r inputs ctx = .ok d) : P d :=
  degree_kept_of_valuations hP (fun _ _ _ hd ↦ valuation_kept hr hd) h

end Proposition

/-- The degrees in the output of a rule have the property, if its weight has it. -/
theorem Rule.output_kept (hP : Kept P)
    (hr : ∀ name x, inputs.get name = .ok x → r.Gives P ctx x) (hx : r.Gives P sampling x)
    {rule : Rule α} (hweight : P rule.weight) {output : FuzzySet α}
    (ho : rule.output r inputs ctx = .ok output) : P (output.degree sampling x) := by
  obtain ⟨degree, set, hdegree, hset, rfl⟩ := Rule.output_eq_ok_iff.mp ho
  exact hP.scale hweight (hP.implication _ (degree_kept hP hr hdegree) (hx.degree hset))

/-- The degrees in the aggregated output of rules have the property, if all weights have it. -/
theorem RuleBase.output_kept (hP : Kept P)
    (hr : ∀ name x, inputs.get name = .ok x → r.Gives P ctx x) (hx : r.Gives P sampling x)
    {base : RuleBase α} (hweights : ∀ rule ∈ base.rules, P rule.weight) {output : FuzzySet α}
    (ho : base.output r inputs ctx = .ok output) : P (output.degree sampling x) := by
  obtain ⟨sets, hsets, rfl⟩ := RuleBase.output_eq_ok_iff.mp ho
  apply hP.disjunction
  rw [FuzzySet.degrees_eq_map, List.forall_mem_map]
  intro set hset
  obtain ⟨rule, hrule, hout⟩ := exists_left_of_mem hsets hset
  exact Rule.output_kept hP hr hx (hweights rule hrule) hout

namespace FuzzySystem

/-! ### Exact systems -/

section Graded

variable {s : FuzzySystem Exact} {inputs : Assignment Exact}

/-- The weight of a rule is a degree. -/
theorem WellFormedRule.isDegree_weight {rule : Rule Exact} (h : s.WellFormedRule rule) :
    IsDegree rule.weight :=
  ⟨Exact.le_of_lt h.weight.1, h.weight.2⟩

variable (hs : s.WellFormed)
  (hg : ∀ v ∈ s.registry.members, ∀ set ∈ v.labels.values, set.Graded)

include hs hg

/-- The labels of a well-formed system give numbers and labels degrees, if the sets behind them list
degrees only. -/
theorem WellFormed.gives_isDegree {x : Point Exact} (hx : x.IsFinite) :
    s.registry.Gives IsDegree ctx x := by
  intro v hv set hset
  exact (hg v hv set hset).isDegree_degree ((hs.members v hv).sets set hset) hx

/-- So they do to the values of the variables. -/
theorem WellFormed.gives_isDegree_of_get (hinputs : inputs.IsFinite) :
    ∀ name x, inputs.get name = .ok x → s.registry.Gives IsDegree ctx x :=
  fun name x hx ↦ hs.gives_isDegree hg (hinputs name x hx)

/-- The aggregated output then has degrees. -/
theorem WellFormed.isDegree_output (hinputs : inputs.IsFinite) {output : FuzzySet Exact}
    (ho : s.output inputs ctx = .ok output) {x : Point Exact} (hx : x.IsFinite) :
    IsDegree (output.degree sampling x) :=
  RuleBase.output_kept Exact.kept_isDegree (hs.gives_isDegree_of_get hg hinputs)
    (hs.gives_isDegree hg hx) (fun rule hrule ↦ (hs.rules rule hrule).isDegree_weight) ho

end Graded

/-! ### An example -/

/-- The soil, which is dry to a degree that falls with its moisture. -/
noncomputable def soil : Variable Exact where
  name := "soil"
  domain := .numeric ⟨"moisture", 0, 100, .count 3⟩
  labels := ⟨[("dry", .or none [.shape (.zShaped 20 60),
    .scale (.shape (.triangular 0 0 90)) (1 / 2)])], by simp⟩

/-- Up to ten minutes. -/
noncomputable def minutes : NumericDomain Exact := ⟨"minutes", 0, 10, .count 5⟩

/-- The time of watering, which is long unless it is short. -/
noncomputable def watering : Variable Exact where
  name := "watering"
  domain := .numeric minutes
  labels := ⟨[("long", .not (.shape (.piecewise [(0, 1), (10, 0)])))], by simp⟩

private theorem one_div_two : Exact.number 1 / .number 2 = .number (1 / 2) :=
  Exact.number_div two_ne_zero

private theorem soil_wellFormed : soil.WellFormed where
  domain := by
    simp [soil, Domain.WellFormed, Exact.isFinite_iff]
  sets := by
    have h20 : (20 : ℝ) ≤ 60 := by norm_num
    simp [soil, Table.values, Shape.wellFormed_iff, Shape.numbers, Shape.parameters, Shape.knots,
      Shape.widths, Exact.isFinite_iff, one_div_two, h20]

private theorem watering_wellFormed : watering.WellFormed where
  domain := by
    simp [watering, minutes, Domain.WellFormed, Exact.isFinite_iff]
  sets := by
    simp [watering, Table.values, Shape.wellFormed_iff, Shape.numbers, Shape.knots, Shape.widths,
      Exact.isFinite_iff]

private theorem soil_graded : ∀ set ∈ soil.labels.values, set.Graded := by
  have hhalf : (2⁻¹ : ℝ) ≤ 1 := by norm_num
  simp [soil, Table.values, FuzzySet.graded_iff, FuzzySet.nodes, FuzzySet.nodesAll, one_div_two,
    hhalf]

private theorem watering_graded : ∀ set ∈ watering.labels.values, set.Graded := by
  simp only [watering, Table.values, List.map_cons, List.map_nil, List.forall_mem_singleton]
  constructor
  · simp [FuzzySet.nodes]
  · simp [FuzzySet.nodes]
  · intro points hpoints
    have hpoints : points = [(0, 1), (10, 0)] := by simpa [FuzzySet.nodes] using hpoints
    simp [hpoints]
  · simp [FuzzySet.nodes]
  · simp [FuzzySet.nodes]

/-- A system that waters dry soil for long. -/
noncomputable def irrigation : FuzzySystem Exact where
  registry := .ofMembers [soil, watering] (by simp [soil, watering]) <| by
    simp [Variable.validate_eq_ok_iff, soil_wellFormed, watering_wellFormed]
  inputs := [⟨0⟩]
  rules := ⟨[⟨.or [.is ⟨0⟩ "dry", .and [.is ⟨0⟩ "dry", .isNot ⟨0⟩ "dry"]], ⟨1⟩, "long", 1 / 2⟩]⟩
  target := ⟨1⟩
  context := {}

/-- The irrigation can be put together. -/
theorem obtained_irrigation : irrigation.Obtained := by
  have hrules : BuiltRules irrigation.rules := by
    rw [builtRules_iff]
    intro rule hrule
    rw [List.mem_singleton.mp hrule, Exact.zero_eq, Exact.one_eq, Exact.two_eq, one_div_two,
      Exact.number_lt, Exact.number_le]
    norm_num
  have hbuild : build irrigation.registry irrigation.inputs irrigation.rules irrigation.target =
      .ok irrigation := by rfl
  exact .built hrules hbuild

/-- The irrigation lists degrees only. -/
theorem irrigation_graded :
    ∀ v ∈ irrigation.registry.members, ∀ set ∈ v.labels.values, set.Graded :=
  List.forall_mem_cons.mpr ⟨soil_graded, List.forall_mem_singleton.mpr watering_graded⟩

/-- Soil of a given moisture. -/
noncomputable def moist (x : ℝ) : Assignment Exact := .ofList [("soil", .number (.number x))]

/-- The moisture is a number. -/
theorem isFinite_moist (x : ℝ) : (moist x).IsFinite := by
  intro name y hy z hz
  subst hz
  by_cases hname : "soil" = name
  · subst hname
    cases hy
    rfl
  · simp [moist, Assignment.get, Assignment.ofList, Table.ofList, Table.insert, Table.put,
      Table.get?, Table.empty, hname] at hy

/-- The moisture is all that the irrigation reads. -/
theorem given_moist (x : ℝ) : ∀ rule ∈ irrigation.rules.rules,
    Given irrigation.registry (moist x) rule.antecedent.valuations := by
  intro rule hrule a ha v hv
  rw [List.mem_singleton.mp hrule] at ha
  have ha : a ∈ [(⟨0⟩, "dry"), (⟨0⟩, "dry"), (⟨0⟩, "dry")] := ha
  have ha : a = (⟨0⟩, "dry") := by simpa using ha
  subst ha
  cases hv
  exact ⟨_, rfl⟩

/-! ### Main results -/

/-- In a system whose labels stand for sets that list degrees only, all degrees of numbers and
labels in the labels, of propositions about given values, in the outputs of rules and in the
aggregated output are in the unit interval, under every context that they are computed in and every
context that the outputs are sampled in. -/
theorem all_degrees_in_unit_interval {s : FuzzySystem Exact} (hs : s.Obtained)
    (hg : ∀ v ∈ s.registry.members, ∀ set ∈ v.labels.values, set.Graded)
    {inputs : Assignment Exact} (hinputs : inputs.IsFinite) (ctx sampling : Context) :
    (∀ v ∈ s.registry.members, ∀ set ∈ v.labels.values, ∀ x : Point Exact, x.IsFinite →
      IsDegree (set.degree ctx x)) ∧
    (∀ p : Proposition, (∀ d, p.degree s.registry inputs ctx = .ok d → IsDegree d) ∧
      (p.WellFormed s.registry → Given s.registry inputs p.valuations →
        ∃ d, p.degree s.registry inputs ctx = .ok d)) ∧
    (∀ rule ∈ s.rules.rules,
      (∀ output, rule.output s.registry inputs ctx = .ok output → ∀ x : Point Exact, x.IsFinite →
        IsDegree (output.degree sampling x)) ∧
      (Given s.registry inputs rule.antecedent.valuations →
        ∃ output, rule.output s.registry inputs ctx = .ok output)) ∧
    (∀ output, s.output inputs ctx = .ok output → ∀ x : Point Exact, x.IsFinite →
      IsDegree (output.degree sampling x)) ∧
    ((∀ rule ∈ s.rules.rules, Given s.registry inputs rule.antecedent.valuations) →
      ∃ output, s.output inputs ctx = .ok output) := by
  have hw := hs.wellFormed
  have hvalues : ∀ name x, inputs.get name = .ok x → s.registry.Gives IsDegree ctx x :=
    hw.gives_isDegree_of_get hg hinputs
  refine ⟨?_, fun p ↦ ⟨?_, ?_⟩, fun rule hrule ↦ ⟨?_, ?_⟩, ?_, ?_⟩
  · intro v hv set hset x hx
    exact hw.gives_isDegree hg hx v hv set hset
  · intro d hd
    exact degree_kept Exact.kept_isDegree hvalues hd
  · intro hp hgiven
    exact exists_degree (validate_eq_ok_iff.mpr hp) hgiven
  · intro output ho x hx
    exact Rule.output_kept Exact.kept_isDegree hvalues (hw.gives_isDegree hg hx)
      (hw.rules rule hrule).isDegree_weight ho
  · intro hgiven
    exact (Rule.output_readsInOrder (hw.validate_eq_ok hrule)).succeeds hgiven
  · intro output ho x hx
    exact hw.isDegree_output hg hinputs ho hx
  · intro hgiven
    exact RuleBase.exists_output (fun rule hrule ↦ hw.validate_eq_ok hrule) hgiven

/-- Soil of some moisture is watered to degrees in the unit interval, however the sets are
combined. -/
theorem irrigation_degrees_in_unit_interval :
    irrigation.Obtained ∧
      (∀ v ∈ irrigation.registry.members, ∀ set ∈ v.labels.values, set.Graded) ∧
      (moist 40).IsFinite ∧
      ∃ output, irrigation.output (moist 40)
          { conjunction := .lukasiewicz, disjunction := .probabilisticSum } = .ok output ∧
        IsDegree (output.degree { disjunction := .boundedSum } (.number 7)) := by
  obtain ⟨-, -, -, hdegree, hexists⟩ := all_degrees_in_unit_interval obtained_irrigation
    irrigation_graded (isFinite_moist 40)
    { conjunction := .lukasiewicz, disjunction := .probabilisticSum } { disjunction := .boundedSum }
  obtain ⟨output, ho⟩ := hexists (given_moist 40)
  refine ⟨obtained_irrigation, irrigation_graded, isFinite_moist 40, output, ho,
    hdegree output ho _ ?_⟩
  rintro y ⟨⟩
  rfl

end FuzzySystem

end FuzzyInference
