import FuzzyInference.Proofs.CSource.Acceptance
import FuzzyInference.Proofs.CSource.Rule
import FuzzyInference.Proofs.FuzzySystem.Description

/-!
# The meaning of generated units

The function that is generated for the degree of the target returns the degree in the aggregated
output, computed from the antecedents as they are written. That is the degree in the output of the
system if every probabilistic sum in the antecedents is balanced.
-/

namespace FuzzyInference

open Result

namespace CSource

variable {r : Registry Exact} {inputs : Assignment Exact} {ctx : Context}

/-! ### Parameters -/

/-- A name that is no parameter stands for nothing. -/
theorem bindParameters_eq_none {names : List String} {name : String} (hn : name ∉ names) :
    ∀ xs : List Exact, bindParameters names xs name = none := by
  induction names with
  | nil => exact fun _ ↦ rfl
  | cons first names ih =>
    rw [List.mem_cons, not_or] at hn
    intro xs
    cases xs with
    | nil => rfl
    | cons x xs => rw [bindParameters, Environment.set, if_neg hn.1, ih hn.2]

/-- Usable parameters do not have the name of a function that expressions call. -/
theorem unshadowed_bindParameters {names : List String} {xs : List Exact}
    (h : ∀ name ∈ names, isUsable name = true) : Unshadowed (bindParameters names xs) := by
  intro function hf
  refine bindParameters_eq_none (fun hm ↦ ?_) xs
  have hunusable : ∀ function ∈ ["fmin", "fmax", "fz_lerp", "fz_triangular", "fz_trapezoidal",
      "fz_gaussian", "fz_gaussian2", "fz_bell", "fz_sigmoid", "fz_s_shaped"],
      isUsable function = false := by decide
  have hu := h function hm
  rw [hunusable function hf] at hu
  cases hu

/-- The values that are given to variables are numbers, in the order of the variables. -/
def GivenRow (inputs : Assignment Exact) : List (Variable Exact) → List ℝ → Prop :=
  List.Forall₂ fun v y ↦ inputs.get v.name = .ok (.number (.number y))

/-- The name of a variable stands for the number that the variable is given. -/
theorem GivenRow.bindParameters_eq {vs : List (Variable Exact)} {row : List ℝ}
    (h : GivenRow inputs vs row) {v : Variable Exact} (hv : v ∈ vs) :
    ∃ y : ℝ, inputs.get v.name = .ok (.number (.number y)) ∧
      bindParameters (vs.map (·.name)) (row.map Exact.number) v.name =
        some (.floating (.number y)) := by
  unfold GivenRow at h
  induction h with
  | nil => cases hv
  | @cons w y vs row hy _ ih =>
    rw [List.map_cons, List.map_cons, bindParameters, Environment.set]
    by_cases hn : v.name = w.name
    · exact ⟨y, by rw [hn, hy], if_pos hn⟩
    · rw [if_neg hn]
      rcases List.mem_cons.mp hv with rfl | hv
      · exact absurd rfl hn
      · exact ih hv

/-! ### Units -/

/-- The function for the centroid has another name than that for the degree. -/
theorem ne_crispName (function : String) : function ≠ crispName function := by
  have hlen : (crispName function).length = function.length + 6 := by
    rw [crispName, String.length_append]
    rfl
  intro he
  rw [← he] at hlen
  omega

/-- The generated function for the degree calls the prelude only. -/
theorem SourceUnit.definedBy_degreeFunction (u : SourceUnit Exact) (arguments : List Exact) :
    definedBy u.functions u.function arguments =
      u.degreeFunction.result (definedBy prelude) arguments := by
  refine definedBy_self prelude u.degreeFunction (fun hm ↦ ?_) arguments
  rw [List.map_singleton, List.mem_singleton] at hm
  exact ne_crispName u.function hm

section Accepted

variable {handles : List Handle} {rules : RuleBase Exact} {target : Handle}
  {s : FuzzySystem Exact} {function : String} {u : SourceUnit Exact} {row : List ℝ}

/-- What a rule of an accepted system reads is an input, and not the target. -/
theorem mem_inputVariables_of_reads (hb : FuzzySystem.build r handles rules target = .ok s)
    {rule : Rule Exact} (hrule : rule ∈ rules.rules) {a : Handle × String}
    (ha : a ∈ rule.antecedent.valuations) {w : Variable Exact} (hw : r.get a.1 = .ok w) :
    w ∈ s.inputVariables ∧ a.1 ≠ target := by
  obtain ⟨-, hni, hsuit, rfl⟩ := FuzzySystem.build_eq_ok_iff.mp hb
  have hmem := (hsuit rule hrule).reads a ha
  refine ⟨List.mem_filterMap.mpr ⟨a.1, hmem, ?_⟩, fun he ↦ hni (he ▸ hmem)⟩
  show (r.get a.1).toOption = some w
  rw [hw]
  rfl

/-- What a rule of an accepted system reads is given if all inputs are. -/
theorem GivenRow.given (hrow : GivenRow inputs s.inputVariables row)
    (hb : FuzzySystem.build r handles rules target = .ok s) {rule : Rule Exact}
    (hrule : rule ∈ rules.rules) : Proposition.Given r inputs rule.antecedent.valuations := by
  intro a ha w hw
  obtain ⟨y, hy, -⟩ := hrow.bindParameters_eq (mem_inputVariables_of_reads hb hrule ha hw).1
  exact ⟨_, hy⟩

/-- An accepted system has an output if its inputs are given numbers. -/
theorem exists_output (hb : FuzzySystem.build r handles rules target = .ok s)
    (hrow : GivenRow inputs s.inputVariables row) :
    ∃ output, s.output inputs ctx = .ok output := by
  have hgiven : ∀ rule ∈ rules.rules, Proposition.Given r inputs rule.antecedent.valuations :=
    fun _ ↦ hrow.given hb
  obtain ⟨-, -, hsuit, rfl⟩ := FuzzySystem.build_eq_ok_iff.mp hb
  exact RuleBase.exists_output (fun rule hrule ↦ (hsuit rule hrule).valid) hgiven

/-- The expression of a unit means the degree of the target in the aggregated output as it is
written, where the parameters stand for the given numbers. -/
theorem SourceUnit.degree_means (hb : FuzzySystem.build r handles rules target = .ok s)
    (hu : SourceUnit.ofSystem (s.withContext ctx) function = .ok u)
    (hrow : GivenRow inputs s.inputVariables row) (x : ℝ) :
    ∃ written, rules.writtenOutput r inputs ctx = .ok written ∧
      Means (definedBy prelude)
        (bindParameters (u.target :: u.inputs) (.number x :: row.map .number)) 3 u.degree
        (written.degree ctx (.number (.number x))) := by
  have hreads : ∀ rule ∈ rules.rules, ∀ a ∈ rule.antecedent.valuations, ∀ w, r.get a.1 = .ok w →
      w ∈ s.inputVariables ∧ a.1 ≠ target :=
    fun _ hrule _ ha _ hw ↦ mem_inputVariables_of_reads hb hrule ha hw
  obtain ⟨-, -, hsuit, rfl⟩ := FuzzySystem.build_eq_ok_iff.mp hb
  obtain ⟨-, v, _, hv, hp, hi, ho, -, ht, hin, -⟩ := SourceUnit.of_ofSystem hu
  have hv : r.get target = .ok v := hv
  rw [ht, hin]
  generalize henv : bindParameters _ _ = env
  have husable : ∀ name ∈ v.name :: (FuzzySystem.inputVariables
      ⟨r, handles, rules, target, {}⟩).map (·.name), isUsable name = true := by
    rw [List.forall_mem_cons, List.forall_mem_map]
    exact ⟨(requireParameter_eq_ok_iff.mp hp).2, isUsable_of_requireInputs hi⟩
  have hx : env v.name = some (.floating (.number x)) := by
    rw [← henv, bindParameters, Environment.set, if_pos rfl]
  -- No input has the name of the target, which comes first.
  have hgiven : ∀ rule ∈ rules.rules, GivenNumbers r inputs env rule.antecedent.valuations := by
    intro rule hrule a ha w hw
    obtain ⟨hmem, hne⟩ := hreads rule hrule a ha w hw
    obtain ⟨y, hy, hbound⟩ := hrow.bindParameters_eq hmem
    have hname : w.name ≠ v.name := fun hn ↦ hne (Registry.handle_eq_of_name_eq hw hv hn)
    refine ⟨y, hy, ?_⟩
    rw [← henv, bindParameters, Environment.set, if_neg hname]
    exact hbound
  exact output_means knowsPrelude (henv ▸ unshadowed_bindParameters husable)
    (fun rule hrule ↦ (hsuit rule hrule).valid) hgiven
    (fun rule hrule ↦ (hsuit rule hrule).target_eq ▸ hv) hx ho

/-- The function that is generated for the degree returns the degree of the target in the aggregated
output as it is written. -/
theorem SourceUnit.returns_written (hb : FuzzySystem.build r handles rules target = .ok s)
    (hu : SourceUnit.ofSystem (s.withContext ctx) function = .ok u)
    (hrow : GivenRow inputs s.inputVariables row) (x : ℝ) :
    ∃ written, rules.writtenOutput r inputs ctx = .ok written ∧
      definedBy u.functions u.function (.number x :: row.map .number) =
        some (written.degree ctx (.number (.number x))) := by
  obtain ⟨written, hw, hm⟩ := degree_means hb hu hrow x
  obtain ⟨-, -, -, -, -, -, -, -, -, hin, -⟩ := SourceUnit.of_ofSystem hu
  refine ⟨written, hw, ?_⟩
  have hlen : (Exact.number x :: row.map .number).length =
      u.degreeFunction.parameters.length := by
    have hrow := List.Forall₂.length_eq hrow
    simpa [degreeFunction, hin] using hrow.symm
  rw [SourceUnit.definedBy_degreeFunction]
  exact Function.result_eq hlen (.result (hm.of_le (by decide)))

end Accepted

/-! ### A cautious fan

A fan is fast unless it is hot. Every number is hot to one half. -/

/-- A variable with one label that every number has to the same degree. -/
private noncomputable def constantly (name label : String) (degree : ℝ) : Variable Exact where
  name := name
  domain := .numeric ⟨name, .number 0, .number 1, .count 2⟩
  labels := ⟨[(label, .constant (.number degree))], by simp⟩

private theorem constantly_validate (name label : String) (degree : ℝ) :
    (constantly name label degree).validate = .ok () := by
  have hd : (constantly name label degree).domain.validate = .ok () := by
    simp [constantly, Domain.validate, NumericDomain.validate, Exact.isFinite_iff]
  have hs : (FuzzySet.constant (Exact.number degree)).validate = .ok () :=
    SetFault.requireFinite_eq_ok_iff.mpr (by simp [Exact.isFinite_iff])
  have hall : FuzzySet.validateAll (constantly name label degree).labels.values = .ok () :=
    FuzzySet.validateAll_eq_ok_iff.mpr (by simpa [constantly, Table.values] using hs)
  rw [Variable.validate, hd, hall]
  rfl

private theorem cautious_names_nodup : ([constantly "heat" "hot" (1 / (1 + 1)),
    constantly "fan" "fast" 1].map (·.name)).Nodup := by
  simp [constantly]

private theorem cautious_validate :
    ∀ v ∈ [constantly "heat" "hot" (1 / (1 + 1)), constantly "fan" "fast" 1],
      v.validate = .ok () := by
  simp [constantly_validate]

/-- The fan with its rule. -/
noncomputable def cautious : FuzzySystem Exact where
  registry := .ofMembers [constantly "heat" "hot" (1 / (1 + 1)), constantly "fan" "fast" 1]
    cautious_names_nodup cautious_validate
  inputs := [⟨0⟩]
  rules := ⟨[⟨.or [.not (.is ⟨0⟩ "hot")], ⟨1⟩, "fast", .number 1⟩]⟩
  target := ⟨1⟩
  context := {}

/-- The fan is accepted. -/
theorem build_cautious : FuzzySystem.build cautious.registry cautious.inputs cautious.rules
    cautious.target = .ok cautious := by
  rfl

/-- The sets of its labels are constant, one half or one. -/
theorem cautious_labels : ∀ v ∈ cautious.registry.members, ∀ s ∈ v.labels.values,
    s = .constant (.number (1 / (1 + 1))) ∨ s = .constant (.number 1) := by
  simp [cautious, constantly, Table.values]

/-- Some heat. -/
noncomputable def heated (y : ℝ) : Assignment Exact :=
  ⟨⟨[("heat", .number (.number y))], by simp⟩⟩

/-- The heat is given as a number. -/
theorem givenRow_heated (y : ℝ) : GivenRow (heated y) cautious.inputVariables [y] :=
  .cons rfl .nil

private theorem set_constant (ctx : Context) (x : String) (value : Exact) :
    set ctx x (.constant value) = .ok (Expression.grouped (literal value)) := by
  rw [set, setBody]
  rfl

/-- The fan has a unit under every disjunction. -/
theorem exists_unit_cautious (op : Disjunction) :
    ∃ u, SourceUnit.ofSystem (cautious.withContext { disjunction := op }) "speed" = .ok u := by
  have hhot : valuation cautious.registry { disjunction := op } ⟨0⟩ "hot" =
      .ok (Expression.grouped (literal (.number (1 / (1 + 1))))) := set_constant _ _ _
  have hfast : cautious.registry.labelSet ⟨1⟩ "fast" = .ok (.constant (.number 1)) := rfl
  have hrule : ∃ e, rule cautious.registry { disjunction := op } "fan"
      ⟨.or [.not (.is ⟨0⟩ "hot")], ⟨1⟩, "fast", .number 1⟩ = .ok e := by
    simp only [rule, proposition, propositions, hhot, hfast, set_constant, mapError_ok, ok_bind,
      pure_eq_ok]
    exact ⟨_, rfl⟩
  obtain ⟨e, he⟩ := hrule
  have hout : output cautious.registry { disjunction := op } "fan" cautious.rules.rules =
      .ok (disjunction .maximum [e]) := by
    rw [output, show cautious.rules.rules = [_] from rfl, List.mapM_cons, he]
    rfl
  refine ⟨⟨"speed", "fan", ["heat"], disjunction .maximum [e], .ofSteps (.count 2)⟩, ?_⟩
  rw [SourceUnit.ofSystem]
  show (output cautious.registry { disjunction := op } "fan" cautious.rules.rules >>= _) = _
  rw [hout]
  rfl

/-! ### Main results -/

section Accepted

variable {handles : List Handle} {rules : RuleBase Exact} {target : Handle}
  {s : FuzzySystem Exact} {function : String} {u : SourceUnit Exact} {row : List ℝ}

/-- The expression for the degree groups in one way only. The function returns the degree in the
aggregated output as it is written, and so that of the output exactly if the two degrees are equal.
Balanced antecedents have one output for both, and an antecedent that is a disjunction of balanced
propositions comes to its own degree exactly if it is balanced too. -/
theorem SourceUnit.returns_degree_iff (hb : FuzzySystem.build r handles rules target = .ok s)
    (hu : SourceUnit.ofSystem (s.withContext ctx) function = .ok u)
    (hrow : GivenRow inputs s.inputVariables row) (x : ℝ) :
    (∃! t, Reads 8 u.degree t) ∧
      ∃ output written, s.output inputs ctx = .ok output ∧
        rules.writtenOutput r inputs ctx = .ok written ∧
        definedBy u.functions u.function (.number x :: row.map .number) =
          some (written.degree ctx (.number (.number x))) ∧
        (definedBy u.functions u.function (.number x :: row.map .number) =
            some (output.degree ctx (.number (.number x))) ↔
          written.degree ctx (.number (.number x)) = output.degree ctx (.number (.number x))) ∧
        ((∀ rule ∈ rules.rules, rule.antecedent.Balanced r inputs ctx) → written = output) ∧
        ∀ rule ∈ rules.rules, ∀ ps, rule.antecedent = .or ps →
          Proposition.AllBalanced r inputs ctx ps →
            (rule.antecedent.writtenDegree r inputs ctx = rule.antecedent.degree r inputs ctx ↔
              rule.antecedent.Balanced r inputs ctx) := by
  obtain ⟨_, _, t, ht, -⟩ := degree_means hb hu hrow x
  obtain ⟨output, ho⟩ : ∃ output, s.output inputs ctx = .ok output := exists_output hb hrow
  obtain ⟨written, hw, hr⟩ := returns_written hb hu hrow x
  refine ⟨⟨t, ht.of_le (by decide), fun _ h ↦ h.unique (Nat.le_refl 8) (ht.of_le (by decide))⟩,
    output, written, ho, hw, hr, ?_, ?_, ?_⟩
  · rw [hr, Option.some.injEq]
  · intro hbalanced
    obtain ⟨-, -, -, rfl⟩ := FuzzySystem.build_eq_ok_iff.mp hb
    rw [RuleBase.writtenOutput_eq hbalanced] at hw
    exact Except.ok.inj (hw.symm.trans ho)
  · intro rule hrule ps hps hall
    have hgiven := hrow.given hb hrule
    obtain ⟨-, -, hsuit, -⟩ := FuzzySystem.build_eq_ok_iff.mp hb
    have hvalid := (Rule.validate_eq_ok_iff.mp (hsuit rule hrule).valid).1
    rw [hps] at hgiven hvalid ⊢
    obtain ⟨ds, hds⟩ : ∃ ds, Proposition.degrees r inputs ctx ps = .ok ds :=
      Proposition.exists_degrees (Proposition.validate_or_eq_ok_iff.mp hvalid).2 hgiven
    exact Proposition.writtenDegree_or_eq_iff hall hds

end Accepted

/-- Without probabilistic sums the function for the fan returns the degree in its output. -/
theorem cautious_returns_degree :
    ∃ u output, FuzzySystem.build cautious.registry cautious.inputs cautious.rules
        cautious.target = .ok cautious ∧
      SourceUnit.ofSystem (cautious.withContext {}) "speed" = .ok u ∧
        GivenRow (heated 3) cautious.inputVariables [3] ∧
          cautious.output (heated 3) {} = .ok output ∧
            definedBy u.functions u.function [.number 7, .number 3] =
              some (output.degree {} (.number (.number 7))) := by
  obtain ⟨u, hu⟩ := exists_unit_cautious .maximum
  have hrow := givenRow_heated 3
  obtain ⟨-, output, written, ho, -, hr, -, hb, -⟩ :=
    SourceUnit.returns_degree_iff build_cautious hu hrow 7
  have hbalanced : ∀ rule ∈ cautious.rules.rules,
      rule.antecedent.Balanced cautious.registry (heated 3) {} := by
    intro rule hrule
    rw [List.mem_singleton.mp hrule]
    exact ⟨⟨trivial, trivial⟩, nofun⟩
  rw [hb hbalanced] at hr
  exact ⟨u, output, build_cautious, hu, hrow, ho, hr⟩

/-- With them it returns one where the degree in the output is one half. -/
theorem cautious_returns_other_degree :
    ∃ u output, FuzzySystem.build cautious.registry cautious.inputs cautious.rules
        cautious.target = .ok cautious ∧
      SourceUnit.ofSystem (cautious.withContext { disjunction := .probabilisticSum }) "speed" =
        .ok u ∧
        cautious.output (heated 3) { disjunction := .probabilisticSum } = .ok output ∧
          output.degree { disjunction := .probabilisticSum } (.number (.number 7)) =
            .number (1 / 2) ∧
          definedBy u.functions u.function [.number 7, .number 3] = some (.number 1) := by
  obtain ⟨u, hu⟩ := exists_unit_cautious .probabilisticSum
  obtain ⟨written, hw, hr⟩ :=
    SourceUnit.returns_written build_cautious hu (givenRow_heated 3) 7
  -- What is hot to one half is a bare operand of its complement.
  have hwritten : written = .or (some .maximum) [.scale (.implication .minimum
      (writtenDisjunction .probabilisticSum [(true, 1 - .number (1 / (1 + 1)))])
      (.constant (.number 1))) (.number 1)] := Except.ok.inj (hw.symm.trans (by rfl))
  have hout : cautious.output (heated 3) { disjunction := .probabilisticSum } =
      .ok (.or (some .maximum) [.scale (.implication .minimum
        (Disjunction.probabilisticSum.combine [1 - .number (1 / (1 + 1))])
        (.constant (.number 1))) (.number 1)]) := by rfl
  refine ⟨u, _, build_cautious, hu, hout, ?_, hr.trans ?_⟩
  · simp [FuzzySet.degree, FuzzySet.degrees, Scalar.product, Implication.apply,
      Disjunction.combine, Scalar.maximum?, Scalar.min]
    norm_num
  · rw [hwritten]
    simp [FuzzySet.degree, FuzzySet.degrees, writtenDisjunction, writtenComplement, Scalar.product,
      Implication.apply, Disjunction.combine, Scalar.maximum?, Scalar.min]

end CSource

end FuzzyInference
