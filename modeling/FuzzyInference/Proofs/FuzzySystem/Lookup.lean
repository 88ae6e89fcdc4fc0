import FuzzyInference.Proofs.FuzzySystem.Obtained
import FuzzyInference.Proofs.Rule.Output

/-!
# Faults of evaluation

What can go wrong when a system is evaluated. The output of a well-formed system is there exactly
when all variables that are read are given values, and else the first one that is missing is
reported; of all lookups only that of a value ever fails. The crisp output fails besides only if the
target has labels for a domain and the method is not the centroid.
-/

namespace FuzzyInference

open Result Proposition

variable {α : Type} [Scalar α]

/-- A sound domain reduces every set, except that only the centroid is defined on labels. -/
theorem Domain.WellFormed.defuzzify_eq_error_iff {d : Domain α} (hd : d.WellFormed)
    {set : FuzzySet α} {method : Defuzzification} {ctx : Context} {fault : DomainFault α} :
    d.defuzzify set method ctx = .error fault ↔
      ∃ c, d = .categorical c ∧ method ≠ .centroid ∧ fault = .notOnLabels method c.name := by
  cases d with
  | numeric d => simp [Domain.defuzzify]
  | categorical c =>
    obtain ⟨name, labels⟩ := c
    cases labels with
    | nil => exact absurd rfl hd
    | cons label labels =>
      by_cases hm : method = .centroid
      · simp [Domain.defuzzify, CategoricalDomain.defuzzify, hm, Except.map]
      · simp [Domain.defuzzify, CategoricalDomain.defuzzify, hm, Except.map, eq_comm]

namespace FuzzySystem

variable {s : FuzzySystem α} {inputs : Assignment α} {ctx : Context}

/-- The rules of a well-formed system are valid. -/
theorem WellFormed.validate_eq_ok (hs : s.WellFormed) {rule : Rule α}
    (hrule : rule ∈ s.rules.rules) : rule.validate s.registry = .ok () :=
  (suits_and_weight_iff.mpr (hs.rules rule hrule)).1.valid

/-- The output of a well-formed system reads the valuations of its rules in their order. -/
theorem WellFormed.output_readsInOrder (hs : s.WellFormed) :
    ReadsInOrder s.registry inputs s.rules.valuations (s.output inputs ctx) :=
  RuleBase.output_readsInOrder fun _ ↦ hs.validate_eq_ok

/-- A well-formed system has a target with a sound domain. -/
theorem WellFormed.exists_targetVariable [Scalar.OrderedFinite α] (hs : s.WellFormed) :
    ∃ v, s.targetVariable = .ok v ∧ v.domain.WellFormed := by
  obtain ⟨v, hv⟩ := hs.target
  exact ⟨v, hv, (hs.members v (Registry.mem_of_get hv)).domain⟩

/-- The crisp output of a well-formed system fails as its output does, or because a method other
than the centroid is to be used on labels. -/
theorem WellFormed.crisp_eq_error_iff [Scalar.OrderedFinite α] (hs : s.WellFormed)
    {fault : Fault α} :
    s.crisp inputs ctx = .error fault ↔
      (∃ cause, s.output inputs ctx = .error cause ∧ fault = .lookup cause) ∨
        ∃ set v d, s.output inputs ctx = .ok set ∧ s.targetVariable = .ok v ∧
          v.domain = .categorical d ∧ ctx.defuzzification ≠ .centroid ∧
            fault = .domain (.notOnLabels ctx.defuzzification d.name) := by
  obtain ⟨v, hv, hd⟩ := hs.exists_targetVariable
  rw [crisp, bind_eq_error_iff, mapError_eq_error_iff]
  apply or_congr_right
  simp only [mapError_eq_ok_iff, hv, mapError_ok, ok_bind, mapError_eq_error_iff,
    hd.defuzzify_eq_error_iff, Except.ok.injEq]
  constructor
  · rintro ⟨set, hset, _, ⟨d, hc, hm, rfl⟩, rfl⟩
    exact ⟨set, v, d, hset, rfl, hc, hm, rfl⟩
  · rintro ⟨set, _, d, hset, rfl, hc, hm, rfl⟩
    exact ⟨set, hset, _, ⟨d, hc, hm, rfl⟩, rfl⟩

/-! ### An example -/

/-- An input whose one label is a rise over its domain. -/
private def rising (name label : String) (low high : Float) : Variable Float :=
  ⟨name, .numeric ⟨name, low, high, .count 3⟩, .ofList [(label, .shape (.sShaped low high))]⟩

/-- The target, which is on labels. -/
private def siren : Variable Float :=
  ⟨"siren", .categorical ⟨"signal", ["off", "on"]⟩,
    .ofList [("raised", .singleton (.label "on"))]⟩

/-- A system with a rule that reads the heat, then the smoke, and then the heat again. -/
def alarm : FuzzySystem Float where
  registry :=
    .ofMembers [rising "smoke" "dense" 0 1, rising "heat" "high" 20 60, siren] (by decide) <| by
      simp only [List.forall_mem_cons, List.not_mem_nil, false_implies, implies_true, and_true]
      exact ⟨rfl, rfl, rfl⟩
  inputs := [⟨0⟩, ⟨1⟩]
  rules := ⟨[⟨.or [.isNot ⟨1⟩ "high", .and [.is ⟨0⟩ "dense", .is ⟨1⟩ "high"]], ⟨2⟩, "raised", 1⟩]⟩
  target := ⟨2⟩
  context := {}

/-! ### Main results -/

/-- A system that was obtained in any way has an output exactly when all variables in the
antecedents are given values; else the fault is a lookup fault that names the first missing one, in
the order of the rules and from left to right. The crisp output fails in addition only with a
configuration fault, for a target on labels and a method that is not the centroid. -/
theorem fails_only_on_missing_values {s : FuzzySystem Float} (hs : s.Obtained)
    (inputs : Assignment Float) (ctx : Context) :
    ((∃ set, s.output inputs ctx = .ok set) ↔
      ∀ rule ∈ s.rules.rules, ∀ a ∈ rule.antecedent.valuations,
        ∃ v x, s.registry.get a.1 = .ok v ∧ inputs.get v.name = .ok x) ∧
    (∀ fault, s.output inputs ctx = .error fault ↔
      ∃ v, FirstMissing s.registry inputs
          (s.rules.rules.flatMap fun rule ↦ rule.antecedent.valuations) v ∧
        fault = .noInput v.name) ∧
    ∀ fault, s.crisp inputs ctx = .error fault ↔
      (∃ cause, s.output inputs ctx = .error cause ∧ fault = .lookup cause ∧
        fault.kind = .lookup) ∨
      ∃ set v d, s.output inputs ctx = .ok set ∧ s.targetVariable = .ok v ∧
        v.domain = .categorical d ∧ ctx.defuzzification ≠ .centroid ∧
          fault = .domain (.notOnLabels ctx.defuzzification d.name) ∧
            fault.kind = .configuration := by
  have hw := hs.wellFormed
  refine ⟨?_, fun fault ↦ hw.output_readsInOrder.eq_error_iff, fun fault ↦ ?_⟩
  · rw [hw.output_readsInOrder.exists_ok_iff]
    constructor
    · intro hg rule hrule a ha
      obtain ⟨v, hv⟩ := hw.inputs a.1 ((hw.rules rule hrule).reads a ha)
      obtain ⟨x, hx⟩ := hg a (List.mem_flatMap_of_mem hrule ha) v hv
      exact ⟨v, x, hv, hx⟩
    · intro hg a ha v hv
      obtain ⟨rule, hrule, ha⟩ := List.mem_flatMap.mp ha
      obtain ⟨w, x, hw, hx⟩ := hg rule hrule a ha
      rw [hv] at hw
      cases hw
      exact ⟨x, hx⟩
  · rw [hw.crisp_eq_error_iff]
    constructor
    · rintro (⟨cause, hc, rfl⟩ | ⟨set, v, d, hset, hv, hd, hm, rfl⟩)
      · exact .inl ⟨cause, hc, rfl, rfl⟩
      · exact .inr ⟨set, v, d, hset, hv, hd, hm, rfl, rfl⟩
    · rintro (⟨cause, hc, hf, -⟩ | ⟨set, v, d, hset, hv, hd, hm, hf, -⟩)
      · exact .inl ⟨cause, hc, hf⟩
      · exact .inr ⟨set, v, d, hset, hv, hd, hm, hf⟩

/-- The alarm reports the smoke if only the heat is known, although that alone would raise it; if
both are known it has an output, which the bisector does not reduce. -/
theorem alarm_fails_only_on_missing_values :
    alarm.Obtained ∧
      alarm.output (.ofList [("heat", .number 20)]) {} = .error (.noInput "smoke") ∧
      (∃ set, alarm.output (.ofList [("heat", .number 20), ("smoke", .number 1)]) {} = .ok set) ∧
      alarm.crisp (.ofList [("heat", .number 20), ("smoke", .number 1)])
        { defuzzification := .bisector } = .error (.domain (.notOnLabels .bisector "signal")) := by
  have hrules : BuiltRules alarm.rules := by
    rw [builtRules_iff]
    intro rule hrule
    rw [List.mem_singleton.mp hrule]
    decide
  have halarm : alarm.Obtained :=
    .built hrules (show build alarm.registry alarm.inputs alarm.rules alarm.target = .ok alarm by
      rfl)
  obtain ⟨-, hmissing, -⟩ :=
    fails_only_on_missing_values halarm (.ofList [("heat", .number 20)]) {}
  obtain ⟨hgiven, -, -⟩ := fails_only_on_missing_values halarm
    (.ofList [("heat", .number 20), ("smoke", .number 1)]) {}
  obtain ⟨-, -, hcrisp⟩ := fails_only_on_missing_values halarm
    (.ofList [("heat", .number 20), ("smoke", .number 1)]) { defuzzification := .bisector }
  refine ⟨halarm, (hmissing _).mpr ⟨rising "smoke" "dense" 0 1, ⟨[(⟨1⟩, "high")], (⟨0⟩, "dense"),
    [(⟨1⟩, "high")], rfl, ?_, rfl, ?_⟩, rfl⟩, hgiven.mpr ?_,
    (hcrisp _).mpr (.inr ⟨_, siren, ⟨"signal", ["off", "on"]⟩, rfl, rfl, rfl, by decide, rfl, rfl⟩)⟩
  · intro a ha v hv
    rw [List.mem_singleton.mp ha] at hv
    cases hv
    exact ⟨_, rfl⟩
  · rintro ⟨x, hx⟩
    cases hx
  · intro rule hrule a ha
    rw [List.mem_singleton.mp hrule] at ha
    have ha : a ∈ [(⟨1⟩, "high"), (⟨0⟩, "dense"), (⟨1⟩, "high")] := ha
    simp only [List.mem_cons, List.not_mem_nil, or_false] at ha
    rcases ha with rfl | rfl | rfl
    · exact ⟨_, _, rfl, rfl⟩
    · exact ⟨_, _, rfl, rfl⟩
    · exact ⟨_, _, rfl, rfl⟩

end FuzzySystem

end FuzzyInference
