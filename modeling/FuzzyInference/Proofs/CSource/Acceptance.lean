import FuzzyInference.CSource.Unit
import FuzzyInference.Proofs.Fault.Result

/-!
# Systems that have a unit

What a system and a function name are asked for so that a unit is generated, and what the unit is
made of.
-/

namespace FuzzyInference.CSource

open Result

variable {α : Type}

/-- A function's name is asked to be usable. -/
theorem requireUsable_eq_ok_iff {name : String} :
    requireUsable (α := α) name = .ok () ↔ isUsable name = true := by
  rw [requireUsable]
  split <;> simp_all

/-- What a parameter's name is asked for. -/
theorem requireParameter_eq_ok_iff {function name : String} :
    requireParameter (α := α) function name = .ok () ↔
      (name ≠ function ∧ name ≠ crispName function) ∧ isUsable name = true := by
  rw [requireParameter, refuse_eq_ok_iff, requireUsable_eq_ok_iff, not_or]

/-- Inputs are asked to be numeric and to have names that suit parameters. -/
theorem requireInputs_eq_ok_iff {function : String} {vs : List (Variable α)} :
    requireInputs function vs = .ok () ↔ ∀ v ∈ vs, (∃ d, v.domain = .numeric d) ∧
      requireParameter (α := α) function v.name = .ok () := by
  induction vs with
  | nil => simp [requireInputs]
  | cons v vs ih =>
    rw [requireInputs, List.forall_mem_cons, ← ih]
    cases hd : v.domain with
    | categorical d => simp
    | numeric d => simp [check_bind_eq_ok_iff]

/-- The names of the inputs of a unit are usable. -/
theorem isUsable_of_requireInputs {function : String} {vs : List (Variable α)}
    (h : requireInputs function vs = .ok ()) : ∀ v ∈ vs, isUsable v.name = true :=
  fun v hv ↦ (requireParameter_eq_ok_iff.mp (requireInputs_eq_ok_iff.mp h v hv).2).2

/-- What a system is asked for to have a unit, and what the unit is made of. -/
theorem SourceUnit.of_ofSystem [Scalar α] {s : FuzzySystem α} {function : String}
    {u : SourceUnit α} (h : SourceUnit.ofSystem s function = .ok u) :
    isUsable function = true ∧
      ∃ v steps, s.targetVariable = .ok v ∧
        requireParameter (α := α) function v.name = .ok () ∧
        requireInputs function s.inputVariables = .ok () ∧
        output s.registry s.context v.name s.rules.rules = .ok u.degree ∧
        u.function = function ∧ u.target = v.name ∧ u.inputs = s.inputVariables.map (·.name) ∧
        u.mesh = .ofSteps steps := by
  obtain ⟨hfunction, h⟩ := check_bind_eq_ok_iff.mp h
  refine ⟨requireUsable_eq_ok_iff.mp hfunction, ?_⟩
  by_cases hm : s.context.defuzzification = .centroid
  · simp only [hm, ne_eq, not_true_eq_false, if_false] at h
    obtain ⟨v, hv, h⟩ := bind_eq_ok_iff.mp h
    cases hd : v.domain with
    | categorical d =>
      rw [hd] at h
      cases h
    | numeric d =>
      rw [hd] at h
      obtain ⟨hp, h⟩ := check_bind_eq_ok_iff.mp h
      obtain ⟨hi, h⟩ := check_bind_eq_ok_iff.mp h
      obtain ⟨degree, ho, ⟨⟩⟩ := bind_eq_ok_iff.mp h
      exact ⟨v, d.steps, mapError_eq_ok_iff.mp hv, hp, hi, ho, rfl, rfl, rfl, rfl⟩
  · simp only [hm, ne_eq, not_false_eq_true, if_true] at h
    cases h

end FuzzyInference.CSource
